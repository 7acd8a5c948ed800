import MethanFV.Cpp.Preprocessor.Token
import MethanFV.Cpp.Preprocessor.Expand
import MethanFV.Cpp.Preprocessor.Rules
import MethanFV.Cpp.Preprocessor.Arguments
import MethanFV.Cpp.Preprocessor.Poison
import MethanFV.Cpp.Preprocessor.Literal
import MethanFV.Cpp.Preprocessor.Settle
import MethanFV.Core.Macro
import MethanFV.Utility.Foreach.Table
import MethanFV.Utility.Foreach.Nargs
import MethanFV.Utility.Foreach.Rungs
import MethanFV.Utility.Foreach.Use
import MethanFV.Utility.Foreach.Correct
import MethanFV.Core.Except
import MethanFV.Cpp.Expression.Grammar
import MethanFV.Cpp.Expression.Parse
import MethanFV.Cpp.ObjectType
import MethanFV.Cpp.Outcome
import MethanFV.Cpp.Expression.Evaluate
import MethanFV.Cpp.Footprint
import MethanFV.Cpp.Integer
import MethanFV.Cpp.Bits
import MethanFV.Utility.Exception
import MethanFV.Utility.Exception.Text
import MethanFV.Utility.EnumFlag
import MethanFV.Utility.Assertion.Check
import MethanFV.Utility.Assertion.Bounds
import MethanFV.Utility.Assertion.Macros
import MethanFV.Utility.Assertion.Expansion
import MethanFV.Utility.Assertion.Spelling
import MethanFV.Utility.Varient.Def
import MethanFV.Utility.Varient.Forest
import MethanFV.Utility.Varient.Abstract
import MethanFV.Utility.Varient.Queries
import MethanFV.Utility.Varient.Change
import MethanFV.Utility.Varient.Lifetime
import MethanFV.Utility.Varient.Simulation
import MethanFV.Utility.Varient.Ledger
import MethanFV.Utility.Varient.Refinement
import MethanFV.Utility.Varient.Assignment
import MethanFV.Utility.Varient.Shutdown
import MethanFV.Utility.Varient.Unchecked
import MethanFV.Utility.Varient.Counts
