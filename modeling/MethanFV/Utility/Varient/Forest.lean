/-
  MethanFV.Utility.Varient.Forest — what a program's Varients hold, as values.

  A Varient holds nothing, a pointer, or an object; an object's members are data and further
  Varients.  So the contents of all Varients of a program form a forest, `Objects`.  A node is
  labelled with the identity of its Varient (its location, and its payload's address), which the
  store uses and the value does not.

    * `Represents σ t`       — in the store σ, the Varient at `t.loc` holds the value `t`;
    * `Represents.frame`     — changes elsewhere in the store do not matter;
    * `find`, `replace`      — the subtree of a Varient, and the forest with another one there;
    * `Represents.replace`   — how a change to one Varient's content changes the forest.
-/
import Mathlib.Data.List.Perm.Basic
import MethanFV.Utility.Varient.Def

namespace Methan

open Cpp

variable {B D : Type}

/-! ## §1. Values. -/

mutual

/-- The content of a Varient. -/
inductive Tree (B D : Type) where
  | empty (l : Nat)
  | ptr (l : Nat) (X : ObjectType B) (a : Address)
  /-- An object of type `b` at address `p`. -/
  | val (l : Nat) (b : B) (p : Nat) (members : Objects B D)

/-- The members of an object, or the variables of the program. -/
inductive Objects (B D : Type) where
  | nil
  | data (d : D) (rest : Objects B D)
  | varient (t : Tree B D) (rest : Objects B D)

end

/-- The location of the Varient. -/
def Tree.loc : Tree B D → Nat
  | .empty l => l
  | .ptr l _ _ => l
  | .val l _ _ _ => l

/-- The members of the object that the Varient holds. -/
def Tree.members : Tree B D → Objects B D
  | .empty _ => .nil
  | .ptr _ _ _ => .nil
  | .val _ _ _ members => members

/-- The Varients among the members, with their contents. -/
def Objects.trees : Objects B D → List (Tree B D)
  | .nil => []
  | .data _ rest => rest.trees
  | .varient t rest => t :: rest.trees

/-- The members as the store has them. -/
def Objects.fields : Objects B D → List (Field D)
  | .nil => []
  | .data d rest => .data d :: rest.fields
  | .varient t rest => .varient t.loc :: rest.fields

mutual

/-- The locations of all Varients of a tree. -/
def Tree.locs : Tree B D → List Nat
  | .empty l => [l]
  | .ptr l _ _ => [l]
  | .val l _ _ members => l :: members.locs

def Objects.locs : Objects B D → List Nat
  | .nil => []
  | .data _ rest => rest.locs
  | .varient t rest => t.locs ++ rest.locs

end

mutual

/-- The addresses of all payloads of a tree. -/
def Tree.payloads : Tree B D → List Nat
  | .empty _ => []
  | .ptr _ _ _ => []
  | .val _ _ p members => p :: members.payloads

def Objects.payloads : Objects B D → List Nat
  | .nil => []
  | .data _ rest => rest.payloads
  | .varient t rest => t.payloads ++ rest.payloads

end

mutual

/-- How deep Varients are nested. -/
def Tree.depth : Tree B D → Nat
  | .empty _ => 1
  | .ptr _ _ _ => 1
  | .val _ _ _ members => members.depth + 1

def Objects.depth : Objects B D → Nat
  | .nil => 0
  | .data _ rest => rest.depth
  | .varient t rest => max t.depth rest.depth

end

mutual

/-- The value alone: the identities are forgotten, and `g` is what is seen of the data. -/
def Tree.value {G : Type} (g : D → G) : Tree B D → Tree B G
  | .empty _ => .empty 0
  | .ptr _ X a => .ptr 0 X a
  | .val _ b _ members => .val 0 b 0 (members.value g)

def Objects.value {G : Type} (g : D → G) : Objects B D → Objects B G
  | .nil => .nil
  | .data d rest => .data (g d) (rest.value g)
  | .varient t rest => .varient (t.value g) (rest.value g)

end

mutual

/-- The content of the Varient at location `l`. -/
def Tree.find (l : Nat) : Tree B D → Option (Tree B D)
  | .empty l' => if l' = l then some (.empty l') else none
  | .ptr l' X a => if l' = l then some (.ptr l' X a) else none
  | .val l' b p members =>
      if l' = l then some (.val l' b p members) else members.find l

def Objects.find (l : Nat) : Objects B D → Option (Tree B D)
  | .nil => none
  | .data _ rest => rest.find l
  | .varient t rest => (t.find l).or (rest.find l)

end

mutual

/-- Another content for the Varient at location `l`. -/
def Tree.replace (l : Nat) (s : Tree B D) : Tree B D → Tree B D
  | .empty l' => if l' = l then s else .empty l'
  | .ptr l' X a => if l' = l then s else .ptr l' X a
  | .val l' b p members => if l' = l then s else .val l' b p (members.replace l s)

def Objects.replace (l : Nat) (s : Tree B D) : Objects B D → Objects B D
  | .nil => .nil
  | .data d rest => .data d (rest.replace l s)
  | .varient t rest => .varient (Tree.replace l s t) (rest.replace l s)

end

/-! ## §2. Values in the store. -/

mutual

/-- In the store, the Varient at `t.loc` holds `t`. -/
def Represents (I : TypeInfo B) (σ : Store B D) : Tree B D → Prop
  | .empty l => σ.varients l = some .ofNull
  | .ptr l X a => σ.varients l = some (.ofPointer I X a) ∧ I.uses (.pointer false X)
  | .val l b p members =>
      σ.varients l = some (.ofPayload I (.base false b) p) ∧ I.uses (.base false b) ∧
        σ.heap p = some ⟨.base false b, members.fields⟩ ∧ RepresentsAll I σ members

def RepresentsAll (I : TypeInfo B) (σ : Store B D) : Objects B D → Prop
  | .nil => True
  | .data _ rest => RepresentsAll I σ rest
  | .varient t rest => Represents I σ t ∧ RepresentsAll I σ rest

end

variable {I : TypeInfo B} {σ σ' : Store B D}

mutual

/-- **Changes elsewhere do not matter.** -/
theorem Represents.frame : ∀ {t : Tree B D}, Represents I σ t →
    (∀ l ∈ t.locs, σ'.varients l = σ.varients l) → (∀ p ∈ t.payloads, σ'.heap p = σ.heap p) →
    Represents I σ' t
  | .empty l, h, hl, _ => by
      rw [Represents, hl l (by simp [Tree.locs])]
      exact h
  | .ptr l X a, h, hl, _ => by
      rw [Represents, hl l (by simp [Tree.locs])]
      exact h
  | .val l b p members, h, hl, hp => by
      obtain ⟨hv, hu, hh, hm⟩ := h
      refine ⟨by rw [hl l (by simp [Tree.locs]), hv], hu,
        by rw [hp p (by simp [Tree.payloads]), hh], ?_⟩
      exact hm.frame (fun i hi => hl i (by simp [Tree.locs, hi]))
        fun i hi => hp i (by simp [Tree.payloads, hi])

theorem RepresentsAll.frame : ∀ {o : Objects B D}, RepresentsAll I σ o →
    (∀ l ∈ o.locs, σ'.varients l = σ.varients l) → (∀ p ∈ o.payloads, σ'.heap p = σ.heap p) →
    RepresentsAll I σ' o
  | .nil, _, _, _ => trivial
  | .data _ rest, h, hl, hp => RepresentsAll.frame (o := rest) h hl hp
  | .varient t rest, h, hl, hp =>
      ⟨h.1.frame (fun i hi => hl i (by simp [Objects.locs, hi]))
          fun i hi => hp i (by simp [Objects.payloads, hi]),
        h.2.frame (fun i hi => hl i (by simp [Objects.locs, hi]))
          fun i hi => hp i (by simp [Objects.payloads, hi])⟩

end

/-! ## §3. Members and their trees. -/

theorem Objects.varients_fields : ∀ os : Objects B D, Field.varients os.fields = os.trees.map Tree.loc
  | .nil => rfl
  | .data _ rest => rest.varients_fields
  | .varient t rest => by rw [fields, Field.varients, rest.varients_fields, trees, List.map_cons]

theorem Objects.locs_eq : ∀ os : Objects B D, os.locs = os.trees.flatMap Tree.locs
  | .nil => rfl
  | .data _ rest => rest.locs_eq
  | .varient t rest => by rw [locs, rest.locs_eq, trees, List.flatMap_cons]

theorem Objects.payloads_eq : ∀ os : Objects B D, os.payloads = os.trees.flatMap Tree.payloads
  | .nil => rfl
  | .data _ rest => rest.payloads_eq
  | .varient t rest => by rw [payloads, rest.payloads_eq, trees, List.flatMap_cons]

theorem Objects.locs_perm {os os' : Objects B D} {ts : List (Tree B D)}
    (h : os.trees.Perm (ts ++ os'.trees)) : os.locs.Perm (ts.flatMap Tree.locs ++ os'.locs) := by
  rw [os.locs_eq, os'.locs_eq, ← List.flatMap_append]
  exact h.flatMap_right _

theorem Objects.payloads_perm {os os' : Objects B D} {ts : List (Tree B D)}
    (h : os.trees.Perm (ts ++ os'.trees)) :
    os.payloads.Perm (ts.flatMap Tree.payloads ++ os'.payloads) := by
  rw [os.payloads_eq, os'.payloads_eq, ← List.flatMap_append]
  exact h.flatMap_right _

theorem Objects.depth_le : ∀ {o : Objects B D}, ∀ t ∈ o.trees, t.depth ≤ o.depth
  | .nil, t, ht => by simp [trees] at ht
  | .data _ rest, t, ht => rest.depth_le t ht
  | .varient t' rest, t, ht => by
      rcases List.mem_cons.mp ht with rfl | ht
      · exact Nat.le_max_left _ _
      · exact Nat.le_trans (rest.depth_le t ht) (Nat.le_max_right _ _)

theorem Objects.depth_le_of {n : Nat} : ∀ {o : Objects B D}, (∀ t ∈ o.trees, t.depth ≤ n) →
    o.depth ≤ n
  | .nil, _ => Nat.zero_le n
  | .data _ rest, h => Objects.depth_le_of (o := rest) h
  | .varient t _, h => Nat.max_le.mpr ⟨h t List.mem_cons_self,
      Objects.depth_le_of fun u hu => h u (List.mem_cons_of_mem _ hu)⟩

theorem representsAll_iff : ∀ {o : Objects B D},
    RepresentsAll I σ o ↔ ∀ t ∈ o.trees, Represents I σ t
  | .nil => by simp [RepresentsAll, Objects.trees]
  | .data _ rest => representsAll_iff (o := rest)
  | .varient t rest => by
      rw [RepresentsAll, representsAll_iff (o := rest), Objects.trees, List.forall_mem_cons]

theorem Field.varients_append (fs gs : List (Field D)) :
    varients (fs ++ gs) = varients fs ++ varients gs := by
  induction fs with
  | nil => rfl
  | cons x fs ih => cases x <;> simp [varients, ih]

theorem Field.varients_reverse (fs : List (Field D)) :
    varients fs.reverse = (varients fs).reverse := by
  induction fs with
  | nil => rfl
  | cons x fs ih =>
      rw [List.reverse_cons, varients_append, ih]
      cases x <;> simp [varients]

theorem Field.varients_perm {fs gs : List (Field D)} (h : fs.Perm gs) :
    (varients fs).Perm (varients gs) := by
  induction h with
  | nil => exact .refl _
  | cons x _ ih =>
      cases x with
      | data d => exact ih
      | varient l => exact ih.cons l
  | swap x y fs =>
      cases x with
      | data d => cases y <;> exact .refl _
      | varient l =>
          cases y with
          | data d => exact .refl _
          | varient k => exact .swap _ _ _
  | trans _ _ ih ih' => exact ih.trans ih'

theorem Field.varients_insertIdx {fs : List (Field D)} {i l : Nat} (hi : i ≤ fs.length) :
    (varients (fs.insertIdx i (.varient l))).Perm (l :: varients fs) :=
  varients_perm (List.perm_insertIdx _ fs hi)

theorem Field.varients_eraseIdx {fs : List (Field D)} {i l : Nat} (hi : fs[i]? = some (.varient l)) :
    (varients fs).Perm (l :: varients (fs.eraseIdx i)) := by
  obtain ⟨hlt, heq⟩ := List.getElem?_eq_some_iff.mp hi
  have h := varients_perm (List.getElem_cons_eraseIdx_perm hlt)
  rw [heq] at h
  exact h.symm

theorem Tree.locs_eq (t : Tree B D) : t.locs = t.loc :: t.members.locs := by
  cases t <;> rfl

theorem Tree.depth_eq (t : Tree B D) : t.depth = t.members.depth + 1 := by
  cases t <;> rfl

theorem Tree.loc_mem (t : Tree B D) : t.loc ∈ t.locs := by
  rw [t.locs_eq]
  exact List.mem_cons_self

mutual

/-- The depth is seen in the value. -/
theorem Tree.depth_value {G : Type} (g : D → G) : ∀ t : Tree B D, (t.value g).depth = t.depth
  | .empty _ => rfl
  | .ptr _ _ _ => rfl
  | .val _ _ _ members => congrArg (· + 1) (members.depth_value g)

theorem Objects.depth_value {G : Type} (g : D → G) :
    ∀ os : Objects B D, (os.value g).depth = os.depth
  | .nil => rfl
  | .data _ rest => rest.depth_value g
  | .varient t rest => congrArg₂ max (t.depth_value g) (rest.depth_value g)

end

/-- The Varient of a represented tree is live. -/
theorem Represents.live {t : Tree B D} (h : Represents I σ t) : ∃ v, σ.varients t.loc = some v := by
  cases t with
  | empty l => exact ⟨_, h⟩
  | ptr l X a => exact ⟨_, h.1⟩
  | val l b p os => exact ⟨_, h.1⟩

mutual

/-- Nesting is bounded by the number of Varients. -/
theorem Tree.depth_le_length : ∀ t : Tree B D, t.depth ≤ t.locs.length
  | .empty _ => Nat.le_refl _
  | .ptr _ _ _ => Nat.le_refl _
  | .val _ _ _ members => Nat.succ_le_succ members.depth_le_length

theorem Objects.depth_le_length : ∀ os : Objects B D, os.depth ≤ os.locs.length
  | .nil => Nat.le_refl _
  | .data _ rest => rest.depth_le_length
  | .varient t rest => by
      have ht := t.depth_le_length
      have hrest := rest.depth_le_length
      rw [Objects.depth, Objects.locs, List.length_append]
      omega

end

mutual

/-- All of a represented tree is live. -/
theorem Represents.live_all : ∀ {t : Tree B D}, Represents I σ t →
    (∀ l ∈ t.locs, ∃ v, σ.varients l = some v) ∧ ∀ p ∈ t.payloads, ∃ x, σ.heap p = some x
  | .empty l, h => by
      refine ⟨fun i hi => ?_, by simp [Tree.payloads]⟩
      rw [List.mem_singleton.mp hi]
      exact ⟨_, h⟩
  | .ptr l X a, h => by
      refine ⟨fun i hi => ?_, by simp [Tree.payloads]⟩
      rw [List.mem_singleton.mp hi]
      exact ⟨_, h.1⟩
  | .val l b p members, h => by
      obtain ⟨hv, -, hh, hm⟩ := h
      obtain ⟨hl, hp⟩ := hm.live_all
      exact ⟨List.forall_mem_cons.mpr ⟨⟨_, hv⟩, hl⟩, List.forall_mem_cons.mpr ⟨⟨_, hh⟩, hp⟩⟩

theorem RepresentsAll.live_all : ∀ {o : Objects B D}, RepresentsAll I σ o →
    (∀ l ∈ o.locs, ∃ v, σ.varients l = some v) ∧ ∀ p ∈ o.payloads, ∃ x, σ.heap p = some x
  | .nil, _ => by simp [Objects.locs, Objects.payloads]
  | .data _ rest, h => RepresentsAll.live_all (o := rest) h
  | .varient t rest, h => by
      obtain ⟨hl, hp⟩ := h.1.live_all
      obtain ⟨hl', hp'⟩ := h.2.live_all
      exact ⟨List.forall_mem_append.mpr ⟨hl, hl'⟩, List.forall_mem_append.mpr ⟨hp, hp'⟩⟩

end

/-! ## §4. Finding a Varient. -/

mutual

theorem Tree.find_eq_none {l : Nat} : ∀ {t : Tree B D}, t.find l = none ↔ l ∉ t.locs
  | .empty l' => by simp [Tree.find, Tree.locs, eq_comm]
  | .ptr l' X a => by simp [Tree.find, Tree.locs, eq_comm]
  | .val l' b p members => by
      by_cases h : l' = l
      · simp [Tree.find, Tree.locs, h]
      · rw [Tree.find, if_neg h, Objects.find_eq_none, Tree.locs, List.mem_cons, not_or]
        exact ⟨fun hm => ⟨fun heq => h heq.symm, hm⟩, fun hm => hm.2⟩

theorem Objects.find_eq_none {l : Nat} : ∀ {o : Objects B D}, o.find l = none ↔ l ∉ o.locs
  | .nil => by simp [Objects.find, Objects.locs]
  | .data _ rest => Objects.find_eq_none (o := rest)
  | .varient t rest => by
      rw [Objects.find, Option.or_eq_none_iff, Tree.find_eq_none, Objects.find_eq_none, Objects.locs,
        List.mem_append, not_or]

end

/-- A Varient of the forest is found. -/
theorem Objects.find_of_mem {l : Nat} {os : Objects B D} (h : l ∈ os.locs) :
    ∃ s, os.find l = some s := by
  cases hf : os.find l with
  | none => exact absurd h (Objects.find_eq_none.mp hf)
  | some s => exact ⟨s, rfl⟩

mutual

theorem Tree.find_some {l : Nat} {s : Tree B D} : ∀ {t : Tree B D}, t.find l = some s →
    s.loc = l ∧ s.locs ⊆ t.locs ∧ s.payloads ⊆ t.payloads ∧ s.depth ≤ t.depth
  | .empty l', h => by
      obtain ⟨hl, rfl⟩ : l' = l ∧ .empty l' = s := by simpa [Tree.find] using h
      exact ⟨hl, fun _ h => h, fun _ h => h, Nat.le_refl _⟩
  | .ptr l' X a, h => by
      obtain ⟨hl, rfl⟩ : l' = l ∧ .ptr l' X a = s := by simpa [Tree.find] using h
      exact ⟨hl, fun _ h => h, fun _ h => h, Nat.le_refl _⟩
  | .val l' b p members, h => by
      by_cases hl : l' = l
      · rw [Tree.find, if_pos hl, Option.some.injEq] at h
        subst h
        exact ⟨hl, fun _ h => h, fun _ h => h, Nat.le_refl _⟩
      · rw [Tree.find, if_neg hl] at h
        obtain ⟨h1, h2, h3, h4⟩ := Objects.find_some h
        exact ⟨h1, fun i hi => List.mem_cons_of_mem _ (h2 hi),
          fun i hi => List.mem_cons_of_mem _ (h3 hi), Nat.le_trans h4 (Nat.le_succ _)⟩

theorem Objects.find_some {l : Nat} {s : Tree B D} : ∀ {o : Objects B D}, o.find l = some s →
    s.loc = l ∧ s.locs ⊆ o.locs ∧ s.payloads ⊆ o.payloads ∧ s.depth ≤ o.depth
  | .nil, h => by simp [Objects.find] at h
  | .data _ rest, h => Objects.find_some (o := rest) h
  | .varient t rest, h => by
      rw [Objects.find, Option.or_eq_some_iff] at h
      rcases h with h | ⟨-, h⟩
      · obtain ⟨h1, h2, h3, h4⟩ := Tree.find_some h
        exact ⟨h1, fun i hi => List.mem_append_left _ (h2 hi),
          fun i hi => List.mem_append_left _ (h3 hi), Nat.le_trans h4 (Nat.le_max_left _ _)⟩
      · obtain ⟨h1, h2, h3, h4⟩ := Objects.find_some h
        exact ⟨h1, fun i hi => List.mem_append_right _ (h2 hi),
          fun i hi => List.mem_append_right _ (h3 hi), Nat.le_trans h4 (Nat.le_max_right _ _)⟩

end

mutual

theorem Represents.find {l : Nat} {s : Tree B D} : ∀ {t : Tree B D}, Represents I σ t →
    t.find l = some s → Represents I σ s
  | .empty l', h, hf => by
      obtain ⟨-, rfl⟩ : l' = l ∧ .empty l' = s := by simpa [Tree.find] using hf
      exact h
  | .ptr l' X a, h, hf => by
      obtain ⟨-, rfl⟩ : l' = l ∧ .ptr l' X a = s := by simpa [Tree.find] using hf
      exact h
  | .val l' b p members, h, hf => by
      by_cases hl : l' = l
      · rw [Tree.find, if_pos hl, Option.some.injEq] at hf
        subst hf
        exact h
      · rw [Tree.find, if_neg hl] at hf
        exact RepresentsAll.find h.2.2.2 hf

theorem RepresentsAll.find {l : Nat} {s : Tree B D} : ∀ {o : Objects B D},
    RepresentsAll I σ o → o.find l = some s → Represents I σ s
  | .nil, _, hf => by simp [Objects.find] at hf
  | .data _ rest, h, hf => RepresentsAll.find (o := rest) h hf
  | .varient t rest, h, hf => by
      rw [Objects.find, Option.or_eq_some_iff] at hf
      rcases hf with hf | ⟨-, hf⟩
      · exact h.1.find hf
      · exact h.2.find hf

end

/-! ## §5. Another content. -/

mutual

theorem Tree.replace_of_not_mem {l : Nat} {s : Tree B D} : ∀ {t : Tree B D}, l ∉ t.locs →
    Tree.replace l s t = t
  | .empty l', h => by
      rw [Tree.replace, if_neg (by simpa [Tree.locs, eq_comm] using h)]
  | .ptr l' X a, h => by
      rw [Tree.replace, if_neg (by simpa [Tree.locs, eq_comm] using h)]
  | .val l' b p members, h => by
      rw [Tree.locs, List.mem_cons, not_or] at h
      rw [Tree.replace, if_neg (fun heq => h.1 heq.symm), Objects.replace_of_not_mem h.2]

theorem Objects.replace_of_not_mem {l : Nat} {s : Tree B D} : ∀ {o : Objects B D}, l ∉ o.locs →
    o.replace l s = o
  | .nil, _ => rfl
  | .data d rest, h => by
      rw [Objects.replace, Objects.replace_of_not_mem (o := rest) h]
  | .varient t rest, h => by
      rw [Objects.locs, List.mem_append, not_or] at h
      rw [Objects.replace, Tree.replace_of_not_mem h.1, Objects.replace_of_not_mem h.2]

end

theorem Tree.loc_replace {l : Nat} {s : Tree B D} (hs : s.loc = l) (t : Tree B D) :
    (Tree.replace l s t).loc = t.loc := by
  cases t with
  | empty l' => rw [replace]; split <;> simp_all [loc]
  | ptr l' X a => rw [replace]; split <;> simp_all [loc]
  | val l' b p members => rw [replace]; split <;> simp_all [loc]

/-- The parent's member is the same Varient. -/
theorem Objects.fields_replace {l : Nat} {s : Tree B D} (hs : s.loc = l) :
    ∀ os : Objects B D, (os.replace l s).fields = os.fields
  | .nil => rfl
  | .data d rest => by rw [replace, fields, fields, rest.fields_replace hs]
  | .varient t rest => by
      rw [replace, fields, fields, rest.fields_replace hs, Tree.loc_replace hs]

/-- A part of the left list is a part of both. -/
theorem split_left {L L' C K : List Nat} (h : L.Perm (L' ++ C)) :
    (L ++ K).Perm (L' ++ (C ++ K)) := by
  rw [← List.append_assoc]
  exact h.append_right K

/-- A part of the right list is a part of both. -/
theorem split_right {L L' C K : List Nat} (h : L.Perm (L' ++ C)) :
    (K ++ L).Perm (L' ++ (K ++ C)) :=
  (h.append_left K).trans (List.perm_append_comm_assoc K L' C)

mutual

/-- The subtree at `l` and the rest of the tree: `replace` exchanges the one and keeps the other. -/
theorem Tree.replace_split {l : Nat} {s : Tree B D} : ∀ {t : Tree B D}, t.find l = some s →
    t.locs.Nodup → ∃ C Q, t.locs.Perm (s.locs ++ C) ∧ t.payloads.Perm (s.payloads ++ Q) ∧
      ∀ s' : Tree B D, (Tree.replace l s' t).locs.Perm (s'.locs ++ C) ∧
        (Tree.replace l s' t).payloads.Perm (s'.payloads ++ Q)
  | .empty l', h, _ => by
      obtain ⟨hl, rfl⟩ : l' = l ∧ .empty l' = s := by simpa [Tree.find] using h
      exact ⟨[], [], by simp, by simp, fun s' => by simp [Tree.replace, hl]⟩
  | .ptr l' X a, h, _ => by
      obtain ⟨hl, rfl⟩ : l' = l ∧ .ptr l' X a = s := by simpa [Tree.find] using h
      exact ⟨[], [], by simp, by simp, fun s' => by simp [Tree.replace, hl]⟩
  | .val l' b p members, h, hn => by
      by_cases hl : l' = l
      · rw [Tree.find, if_pos hl, Option.some.injEq] at h
        subst h
        exact ⟨[], [], by simp, by simp, fun s' => by simp [Tree.replace, hl]⟩
      · rw [Tree.find, if_neg hl] at h
        obtain ⟨C, Q, hC, hQ, hr⟩ := Objects.replace_split h (List.nodup_cons.mp hn).2
        refine ⟨l' :: C, p :: Q, ?_, ?_, fun s' => ?_⟩
        · exact (hC.cons l').trans List.perm_middle.symm
        · exact (hQ.cons p).trans List.perm_middle.symm
        · rw [Tree.replace, if_neg hl]
          exact ⟨((hr s').1.cons l').trans List.perm_middle.symm,
            ((hr s').2.cons p).trans List.perm_middle.symm⟩

theorem Objects.replace_split {l : Nat} {s : Tree B D} : ∀ {o : Objects B D},
    o.find l = some s → o.locs.Nodup → ∃ C Q, o.locs.Perm (s.locs ++ C) ∧
      o.payloads.Perm (s.payloads ++ Q) ∧ ∀ s' : Tree B D,
        (o.replace l s').locs.Perm (s'.locs ++ C) ∧
          (o.replace l s').payloads.Perm (s'.payloads ++ Q)
  | .nil, h, _ => by simp [Objects.find] at h
  | .data d rest, h, hn => Objects.replace_split (o := rest) h hn
  | .varient t rest, h, hn => by
      obtain ⟨hnt, hnr, hd⟩ := List.nodup_append.mp hn
      rw [Objects.find, Option.or_eq_some_iff] at h
      rcases h with h | ⟨h0, h⟩
      · -- the subtree is in `t`, so `rest` stays
        have hmem : l ∈ t.locs := (Tree.find_some h).2.1 ((Tree.find_some h).1 ▸ s.loc_mem)
        have hrest : l ∉ rest.locs := fun hr => hd l hmem l hr rfl
        obtain ⟨C, Q, hC, hQ, hr⟩ := Tree.replace_split h hnt
        refine ⟨C ++ rest.locs, Q ++ rest.payloads, ?_, ?_, fun s' => ?_⟩
        · exact split_left hC
        · exact split_left hQ
        · rw [Objects.replace, Objects.replace_of_not_mem hrest]
          exact ⟨split_left (hr s').1, split_left (hr s').2⟩
      · obtain ⟨C, Q, hC, hQ, hr⟩ := Objects.replace_split h hnr
        refine ⟨t.locs ++ C, t.payloads ++ Q, ?_, ?_, fun s' => ?_⟩
        · exact split_right hC
        · exact split_right hQ
        · rw [Objects.replace, Tree.replace_of_not_mem (Tree.find_eq_none.mp h0)]
          exact ⟨split_right (hr s').1, split_right (hr s').2⟩

end

mutual

/-- **A change to one Varient.**  Everything outside the subtree `s` at `l` is as before, and `s'`
is what the Varient at `l` holds now. -/
theorem Represents.replace {l : Nat} {s s' : Tree B D} (hs' : s'.loc = l)
    (hr : Represents I σ' s') : ∀ {t : Tree B D}, Represents I σ t → t.find l = some s →
      t.locs.Nodup → t.payloads.Nodup →
      (∀ m ∈ t.locs, m ∉ s.locs → σ'.varients m = σ.varients m) →
      (∀ p ∈ t.payloads, p ∉ s.payloads → σ'.heap p = σ.heap p) →
      Represents I σ' (Tree.replace l s' t)
  | .empty l', _, hf, _, _, _, _ => by
      obtain ⟨hl, -⟩ : l' = l ∧ .empty l' = s := by simpa [Tree.find] using hf
      rwa [Tree.replace, if_pos hl]
  | .ptr l' X a, _, hf, _, _, _, _ => by
      obtain ⟨hl, -⟩ : l' = l ∧ .ptr l' X a = s := by simpa [Tree.find] using hf
      rwa [Tree.replace, if_pos hl]
  | .val l' b p members, h, hf, hn, hp, hl, hh => by
      by_cases heq : l' = l
      · rwa [Tree.replace, if_pos heq]
      · rw [Tree.find, if_neg heq] at hf
        obtain ⟨-, hlocs, hpay, -⟩ := Objects.find_some hf
        obtain ⟨hn1, hn2⟩ := List.nodup_cons.mp hn
        obtain ⟨hp1, hp2⟩ := List.nodup_cons.mp hp
        obtain ⟨hv, hu, hx, hm⟩ := h
        rw [Tree.replace, if_neg heq]
        refine ⟨?_, hu, ?_, ?_⟩
        · rw [hl l' (by simp [Tree.locs]) fun hmem => hn1 (hlocs hmem), hv]
        · rw [hh p (by simp [Tree.payloads]) fun hmem => hp1 (hpay hmem), hx,
            Objects.fields_replace hs']
        · exact RepresentsAll.replace hs' hr hm hf hn2 hp2
            (fun m hmem => hl m (List.mem_cons_of_mem _ hmem))
            fun q hmem => hh q (List.mem_cons_of_mem _ hmem)

theorem RepresentsAll.replace {l : Nat} {s s' : Tree B D} (hs' : s'.loc = l)
    (hr : Represents I σ' s') : ∀ {o : Objects B D}, RepresentsAll I σ o →
      o.find l = some s → o.locs.Nodup → o.payloads.Nodup →
      (∀ m ∈ o.locs, m ∉ s.locs → σ'.varients m = σ.varients m) →
      (∀ p ∈ o.payloads, p ∉ s.payloads → σ'.heap p = σ.heap p) →
      RepresentsAll I σ' (o.replace l s')
  | .nil, _, hf, _, _, _, _ => by simp [Objects.find] at hf
  | .data d rest, h, hf, hn, hp, hl, hh =>
      RepresentsAll.replace hs' hr (o := rest) h hf hn hp hl hh
  | .varient t rest, h, hf, hn, hp, hl, hh => by
      obtain ⟨hnt, hnr, hnd⟩ := List.nodup_append.mp hn
      obtain ⟨hpt, hpr, hpd⟩ := List.nodup_append.mp hp
      have hlt := fun m hm => hl m (List.mem_append_left rest.locs hm)
      have hlr := fun m hm => hl m (List.mem_append_right t.locs hm)
      have hht := fun q hq => hh q (List.mem_append_left rest.payloads hq)
      have hhr := fun q hq => hh q (List.mem_append_right t.payloads hq)
      rw [Objects.find, Option.or_eq_some_iff] at hf
      rcases hf with hf | ⟨h0, hf⟩
      · obtain ⟨hloc, hlocs, hpay, -⟩ := Tree.find_some hf
        have hmem : l ∈ t.locs := hlocs (hloc ▸ s.loc_mem)
        rw [Objects.replace, Objects.replace_of_not_mem fun hr => hnd l hmem l hr rfl]
        refine ⟨Represents.replace hs' hr h.1 hf hnt hpt hlt hht, h.2.frame ?_ ?_⟩
        · exact fun m hm => hlr m hm fun hms => hnd m (hlocs hms) m hm rfl
        · exact fun q hq => hhr q hq fun hqs => hpd q (hpay hqs) q hq rfl
      · obtain ⟨hloc, hlocs, hpay, -⟩ := Objects.find_some hf
        rw [Objects.replace, Tree.replace_of_not_mem (Tree.find_eq_none.mp h0)]
        refine ⟨h.1.frame ?_ ?_, RepresentsAll.replace hs' hr h.2 hf hnr hpr hlr hhr⟩
        · exact fun m hm => hlt m hm fun hms => hnd m hm m (hlocs hms) rfl
        · exact fun q hq => hht q hq fun hqs => hpd q hq q (hpay hqs) rfl

end

end Methan
