/-
  MethanFV.Utility.Varient.Abstract — Varients as values.

  What the class is for, without flags, copiers and addresses: a program's Varients are a forest of
  values; copying and assigning copy values, a write replaces the members of one object, and the
  destruction of a variable removes its tree.  Locations only serve as names.

    * `gather`        — an object's members, looked up in a forest;
    * `AStep`         — the operations of a program on the forest;
    * `AStep.untouched` — an operation changes nothing that is not its Varient, part of it, or
                        around it;
    * `Tree.is`, `Tree.get` — the queries.
-/
import MethanFV.Utility.Varient.Forest

namespace Methan

open Cpp

variable {B D G : Type}

/-! ## §1. Members by name. -/

/-- The members whose Varients are those of a forest. -/
def Objects.gather (os : Objects B D) : List (Field D) → Option (Objects B D)
  | [] => some .nil
  | .data d :: fs => (os.gather fs).map (.data d)
  | .varient m :: fs => (os.find m).bind fun t => (os.gather fs).map (.varient t)

/-- Without a variable. -/
def Objects.remove (l : Nat) : Objects B D → Objects B D
  | .nil => .nil
  | .data d rest => .data d (rest.remove l)
  | .varient t rest => if t.loc = l then rest else .varient t (rest.remove l)

theorem Objects.gather_some (os : Objects B D) : ∀ fs : List (Field D),
    (∀ m ∈ Field.varients fs, m ∈ os.locs) → ∃ ms, os.gather fs = some ms
  | [], _ => ⟨.nil, rfl⟩
  | .data d :: fs, h => by
      obtain ⟨ms, hms⟩ := os.gather_some fs h
      exact ⟨.data d ms, by rw [gather, hms, Option.map_some]⟩
  | .varient m :: fs, h => by
      obtain ⟨t, ht⟩ := Objects.find_of_mem (h m List.mem_cons_self)
      obtain ⟨ms, hms⟩ := os.gather_some fs fun k hk => h k (List.mem_cons_of_mem _ hk)
      exact ⟨.varient t ms, by rw [gather, ht, hms, Option.bind_some, Option.map_some]⟩

theorem Objects.gather_varient {os ms : Objects B D} {m : Nat} {fs : List (Field D)}
    (h : os.gather (.varient m :: fs) = some ms) :
    ∃ t ms', os.find m = some t ∧ os.gather fs = some ms' ∧ ms = .varient t ms' := by
  rw [gather, Option.bind_eq_some_iff] at h
  obtain ⟨t, ht, hms⟩ := h
  obtain ⟨ms', hms', rfl⟩ := Option.map_eq_some_iff.mp hms
  exact ⟨t, ms', ht, hms', rfl⟩

theorem Objects.gather_fields {os : Objects B D} : ∀ {fs : List (Field D)} {ms : Objects B D},
    os.gather fs = some ms → ms.fields = fs
  | [], ms, h => by
      rw [← Option.some.inj h]
      rfl
  | .data d :: fs, ms, h => by
      obtain ⟨ms', hms', rfl⟩ := Option.map_eq_some_iff.mp h
      rw [fields, Objects.gather_fields hms']
  | .varient m :: fs, ms, h => by
      obtain ⟨t, ms', ht, hms', rfl⟩ := gather_varient h
      rw [fields, Objects.gather_fields hms', (Objects.find_some ht).1]

theorem Objects.gather_trees {os : Objects B D} : ∀ {fs : List (Field D)} {ms : Objects B D},
    os.gather fs = some ms → ms.trees = (Field.varients fs).filterMap os.find
  | [], ms, h => by
      rw [← Option.some.inj h]
      rfl
  | .data d :: fs, ms, h => by
      obtain ⟨ms', hms', rfl⟩ := Option.map_eq_some_iff.mp h
      have h' : ms'.trees = _ := Objects.gather_trees hms'
      exact h'
  | .varient m :: fs, ms, h => by
      obtain ⟨t, ms', ht, hms', rfl⟩ := gather_varient h
      rw [trees, Field.varients, List.filterMap_cons_some (f := fun l => os.find l) ht, Objects.gather_trees hms']

/-- What is gathered is found in the forest. -/
theorem Objects.find_of_gather {os ms : Objects B D} {fs : List (Field D)} {t : Tree B D}
    (h : os.gather fs = some ms) (ht : t ∈ ms.trees) : ∃ m, os.find m = some t := by
  rw [Objects.gather_trees h] at ht
  obtain ⟨m, -, hm⟩ := List.mem_filterMap.mp ht
  exact ⟨m, hm⟩

theorem Tree.find_loc (t : Tree B D) : t.find t.loc = some t := by
  cases t <;> simp [Tree.find, Tree.loc]

theorem Objects.mem_locs {os : Objects B D} {t : Tree B D} (ht : t ∈ os.trees) {l : Nat}
    (hl : l ∈ t.locs) : l ∈ os.locs := by
  rw [os.locs_eq]
  exact List.mem_flatMap.mpr ⟨t, ht, hl⟩

/-- A variable is found under its name. -/
theorem Objects.find_root : ∀ {o : Objects B D}, o.locs.Nodup → ∀ t ∈ o.trees,
    o.find t.loc = some t
  | .nil, _, t, ht => by simp [trees] at ht
  | .data _ rest, hn, t, ht => Objects.find_root (o := rest) hn t ht
  | .varient t' rest, hn, t, ht => by
      obtain ⟨-, hr, hd⟩ := List.nodup_append.mp hn
      rw [find]
      rcases List.mem_cons.mp ht with rfl | ht
      · rw [t.find_loc, Option.some_or]
      · have hnot : t.loc ∉ t'.locs := fun hmem => hd _ hmem _ (mem_locs ht t.loc_mem) rfl
        rw [Tree.find_eq_none.mpr hnot, Option.none_or]
        exact Objects.find_root hr t ht

theorem Objects.filterMap_find {os : Objects B D} (hn : os.locs.Nodup) :
    (Field.varients os.fields).filterMap os.find = os.trees := by
  rw [os.varients_fields, List.filterMap_map]
  have h : ∀ ts : List (Tree B D), (∀ t ∈ ts, os.find t.loc = some t) →
      ts.filterMap (os.find ∘ Tree.loc) = ts := by
    intro ts hts
    induction ts with
    | nil => rfl
    | cons t ts ih =>
        rw [List.filterMap_cons_some (f := (os.find ·) ∘ Tree.loc) (hts t List.mem_cons_self),
          ih fun u hu => hts u (List.mem_cons_of_mem _ hu)]
  exact h os.trees (Objects.find_root hn)

/-- Members with the same Varients, in another order and with other data. -/
theorem Objects.gather_perm {os ms : Objects B D} (hn : os.locs.Nodup) {fs : List (Field D)}
    (names : List Nat) (hg : os.gather fs = some ms)
    (hp : (Field.varients os.fields).Perm (names ++ Field.varients fs)) :
    os.trees.Perm (names.filterMap os.find ++ ms.trees) := by
  rw [← Objects.filterMap_find hn, Objects.gather_trees hg, ← List.filterMap_append]
  exact hp.filterMap _

theorem Objects.remove_perm {t : Tree B D} : ∀ {o : Objects B D}, o.locs.Nodup → t ∈ o.trees →
    o.trees.Perm (t :: (o.remove t.loc).trees)
  | .nil, _, ht => by simp [trees] at ht
  | .data _ rest, hn, ht => Objects.remove_perm (o := rest) hn ht
  | .varient t' rest, hn, ht => by
      obtain ⟨-, hr, hd⟩ := List.nodup_append.mp hn
      rw [trees, remove]
      rcases List.mem_cons.mp ht with rfl | ht
      · rw [if_pos rfl]
      · have hne : t'.loc ≠ t.loc := fun heq => hd _ t'.loc_mem _ (mem_locs ht t.loc_mem) heq
        rw [if_neg hne, trees]
        exact ((Objects.remove_perm hr ht).cons t').trans (List.Perm.swap _ _ _)

/-! ## §2. Varients that are not nested. -/

mutual

/-- Of two Varients that are not inside each other, no part is shared. -/
theorem Tree.find_disjoint {k l : Nat} {s u : Tree B D} (hk : l ∉ s.locs) (hl : k ∉ u.locs) :
    ∀ {t : Tree B D}, t.find k = some s → t.find l = some u → t.locs.Nodup → t.payloads.Nodup →
      (∀ m ∈ s.locs, m ∉ u.locs) ∧ ∀ p ∈ s.payloads, p ∉ u.payloads
  | .empty l', hs, hu, _, _ => by
      obtain ⟨rfl, rfl⟩ : l' = k ∧ .empty l' = s := by simpa [Tree.find] using hs
      obtain ⟨rfl, -⟩ : l' = l ∧ .empty l' = u := by simpa [Tree.find] using hu
      exact absurd (Tree.loc_mem (B := B) (D := D) (.empty l')) hk
  | .ptr l' X a, hs, hu, _, _ => by
      obtain ⟨rfl, rfl⟩ : l' = k ∧ .ptr l' X a = s := by simpa [Tree.find] using hs
      obtain ⟨rfl, -⟩ : l' = l ∧ .ptr l' X a = u := by simpa [Tree.find] using hu
      exact absurd (Tree.loc_mem (B := B) (D := D) (.ptr l' X a)) hk
  | .val l' b p members, hs, hu, hn, hp => by
      have hmem := (Tree.find_some hu).2.1 ((Tree.find_some hu).1 ▸ u.loc_mem)
      have hmem' := (Tree.find_some hs).2.1 ((Tree.find_some hs).1 ▸ s.loc_mem)
      by_cases heq : l' = k
      · rw [Tree.find, if_pos heq, Option.some.injEq] at hs
        subst hs
        exact absurd hmem hk
      · by_cases heq' : l' = l
        · rw [Tree.find, if_pos heq', Option.some.injEq] at hu
          subst hu
          exact absurd hmem' hl
        · rw [Tree.find, if_neg heq] at hs
          rw [Tree.find, if_neg heq'] at hu
          exact Objects.find_disjoint hk hl hs hu (List.nodup_cons.mp hn).2 (List.nodup_cons.mp hp).2

theorem Objects.find_disjoint {k l : Nat} {s u : Tree B D} (hk : l ∉ s.locs) (hl : k ∉ u.locs) :
    ∀ {o : Objects B D}, o.find k = some s → o.find l = some u → o.locs.Nodup →
      o.payloads.Nodup → (∀ m ∈ s.locs, m ∉ u.locs) ∧ ∀ p ∈ s.payloads, p ∉ u.payloads
  | .nil, hs, _, _, _ => by simp [Objects.find] at hs
  | .data _ rest, hs, hu, hn, hp => Objects.find_disjoint hk hl (o := rest) hs hu hn hp
  | .varient t rest, hs, hu, hn, hp => by
      obtain ⟨hnt, hnr, hnd⟩ := List.nodup_append.mp hn
      obtain ⟨hpt, hpr, hpd⟩ := List.nodup_append.mp hp
      rw [Objects.find, Option.or_eq_some_iff] at hs hu
      rcases hs with hs | ⟨-, hs⟩ <;> rcases hu with hu | ⟨-, hu⟩
      · exact Tree.find_disjoint hk hl hs hu hnt hpt
      · obtain ⟨-, hs1, hs2, -⟩ := Tree.find_some hs
        obtain ⟨-, hu1, hu2, -⟩ := Objects.find_some hu
        exact ⟨fun m hm hm' => hnd m (hs1 hm) m (hu1 hm') rfl,
          fun p hp hp' => hpd p (hs2 hp) p (hu2 hp') rfl⟩
      · obtain ⟨-, hs1, hs2, -⟩ := Objects.find_some hs
        obtain ⟨-, hu1, hu2, -⟩ := Tree.find_some hu
        exact ⟨fun m hm hm' => hnd m (hu1 hm') m (hs1 hm) rfl,
          fun p hp hp' => hpd p (hu2 hp') p (hs2 hp) rfl⟩
      · exact Objects.find_disjoint hk hl hs hu hnr hpr

end

mutual

theorem Tree.locs_replace {l : Nat} {s : Tree B D} : ∀ {t : Tree B D} {m : Nat},
    m ∈ (Tree.replace l s t).locs → m ∈ s.locs ∨ m ∈ t.locs
  | .empty l', m, h => by
      rw [Tree.replace] at h
      split at h
      · exact Or.inl h
      · exact Or.inr h
  | .ptr l' X a, m, h => by
      rw [Tree.replace] at h
      split at h
      · exact Or.inl h
      · exact Or.inr h
  | .val l' b p members, m, h => by
      rw [Tree.replace] at h
      split at h
      · exact Or.inl h
      · rcases List.mem_cons.mp h with rfl | h
        · exact Or.inr List.mem_cons_self
        · exact (Objects.locs_replace h).imp_right (List.mem_cons_of_mem _)

theorem Objects.locs_replace {l : Nat} {s : Tree B D} : ∀ {o : Objects B D} {m : Nat},
    m ∈ (o.replace l s).locs → m ∈ s.locs ∨ m ∈ o.locs
  | .nil, m, h => Or.inr h
  | .data _ rest, m, h => Objects.locs_replace (o := rest) h
  | .varient t rest, m, h => by
      rcases List.mem_append.mp h with h | h
      · exact (Tree.locs_replace h).imp_right (List.mem_append_left _)
      · exact (Objects.locs_replace h).imp_right (List.mem_append_right _)

end

mutual

/-- A Varient that is not inside what changes, nor around it, is as before. -/
theorem Tree.find_replace {l m : Nat} {s' u : Tree B D} (hs' : m ∉ s'.locs) (hu : l ∉ u.locs) :
    ∀ {t : Tree B D}, (∀ s, t.find l = some s → m ∉ s.locs) → t.locs.Nodup → t.find m = some u →
      (Tree.replace l s' t).find m = some u
  | .empty l', hs, hn, hm => by
      have hne : l' ≠ l := by
        intro heq
        refine hs (.empty l') (by simp [Tree.find, heq]) ?_
        exact (Tree.find_some hm).2.1 ((Tree.find_some hm).1 ▸ u.loc_mem)
      rwa [Tree.replace, if_neg hne]
  | .ptr l' X a, hs, hn, hm => by
      have hne : l' ≠ l := by
        intro heq
        refine hs (.ptr l' X a) (by simp [Tree.find, heq]) ?_
        exact (Tree.find_some hm).2.1 ((Tree.find_some hm).1 ▸ u.loc_mem)
      rwa [Tree.replace, if_neg hne]
  | .val l' b p members, hs, hn, hm => by
      have hne : l' ≠ l := by
        intro heq
        refine hs (.val l' b p members) (by simp [Tree.find, heq]) ?_
        exact (Tree.find_some hm).2.1 ((Tree.find_some hm).1 ▸ u.loc_mem)
      rw [Tree.replace, if_neg hne]
      by_cases heq : l' = m
      · -- the Varient is this one, and the change is not inside it
        rw [Tree.find, if_pos heq, Option.some.injEq] at hm
        subst hm
        have hl : l ∉ members.locs := fun hmem => hu (List.mem_cons_of_mem _ hmem)
        rw [Tree.find, if_pos heq, Objects.replace_of_not_mem hl]
      · rw [Tree.find, if_neg heq] at hm ⊢
        refine Objects.find_replace hs' hu (fun s h => hs s ?_) (List.nodup_cons.mp hn).2 hm
        rw [Tree.find, if_neg hne, h]

theorem Objects.find_replace {l m : Nat} {s' u : Tree B D} (hs' : m ∉ s'.locs) (hu : l ∉ u.locs) :
    ∀ {o : Objects B D}, (∀ s, o.find l = some s → m ∉ s.locs) → o.locs.Nodup →
      o.find m = some u → (o.replace l s').find m = some u
  | .nil, _, _, hm => by simp [Objects.find] at hm
  | .data _ rest, hs, hn, hm => Objects.find_replace hs' hu (o := rest) hs hn hm
  | .varient t rest, hs, hn, hm => by
      obtain ⟨hnt, hnr, hnd⟩ := List.nodup_append.mp hn
      have hst : ∀ s, t.find l = some s → m ∉ s.locs := by
        intro s h
        exact hs s (by rw [Objects.find, h, Option.some_or])
      rw [Objects.find, Option.or_eq_some_iff] at hm
      rw [Objects.replace, Objects.find]
      rcases hm with hm | ⟨h0, hm⟩
      · rw [Tree.find_replace hs' hu hst hnt hm, Option.some_or]
      · have hnot : m ∉ (Tree.replace l s' t).locs := by
          intro hmem
          rcases Tree.locs_replace hmem with h | h
          · exact hs' h
          · exact Tree.find_eq_none.mp h0 h
        rw [Tree.find_eq_none.mpr hnot, Option.none_or]
        refine Objects.find_replace hs' hu (fun s h => ?_) hnr hm
        -- the change is in `rest`, so it is not in `t`
        have hl : l ∉ t.locs := by
          intro hmem
          have hmem' := (Objects.find_some h).2.1 ((Objects.find_some h).1 ▸ s.loc_mem)
          exact hnd l hmem l hmem' rfl
        exact hs s (by rw [Objects.find, Tree.find_eq_none.mpr hl, Option.none_or, h])

end

mutual

theorem Tree.find_replace_self {l : Nat} {s : Tree B D} (hs : s.loc = l) : ∀ {t : Tree B D},
    l ∈ t.locs → (Tree.replace l s t).find l = some s
  | .empty l', h => by
      obtain rfl : l = l' := List.mem_singleton.mp h
      rw [Tree.replace, if_pos rfl, ← hs, s.find_loc]
  | .ptr l' X a, h => by
      obtain rfl : l = l' := List.mem_singleton.mp h
      rw [Tree.replace, if_pos rfl, ← hs, s.find_loc]
  | .val l' b p members, h => by
      rw [Tree.replace]
      by_cases heq : l' = l
      · rw [if_pos heq, ← hs, s.find_loc]
      · have hm := (List.mem_cons.mp h).resolve_left fun h => heq h.symm
        rw [if_neg heq, Tree.find, if_neg heq, Objects.find_replace_self hs hm]

/-- The content that a Varient was given is what it holds. -/
theorem Objects.find_replace_self {l : Nat} {s : Tree B D} (hs : s.loc = l) :
    ∀ {o : Objects B D}, l ∈ o.locs → (o.replace l s).find l = some s
  | .nil, h => by simp [Objects.locs] at h
  | .data _ rest, h => Objects.find_replace_self hs (o := rest) h
  | .varient t rest, h => by
      rw [Objects.replace, Objects.find]
      by_cases hl : l ∈ t.locs
      · rw [Tree.find_replace_self hs hl, Option.some_or]
      · rw [Tree.replace_of_not_mem hl, Tree.find_eq_none.mpr hl, Option.none_or]
        exact Objects.find_replace_self hs ((List.mem_append.mp h).resolve_left hl)

end

theorem Objects.remove_of_ne {l : Nat} : ∀ {o : Objects B D}, (∀ t ∈ o.trees, t.loc ≠ l) →
    o.remove l = o
  | .nil, _ => rfl
  | .data d rest, h => by rw [remove, Objects.remove_of_ne (o := rest) h]
  | .varient t rest, h => by
      rw [remove, if_neg (h t List.mem_cons_self),
        Objects.remove_of_ne fun u hu => h u (List.mem_cons_of_mem _ hu)]

theorem Objects.find_remove {l m : Nat} {u : Tree B D} : ∀ {o : Objects B D}, o.locs.Nodup →
    (∀ s, o.find l = some s → m ∉ s.locs) → o.find m = some u → (o.remove l).find m = some u
  | .nil, _, _, hm => by simp [find] at hm
  | .data _ rest, hn, hs, hm => Objects.find_remove (o := rest) hn hs hm
  | .varient t rest, hn, hs, hm => by
      rw [remove]
      by_cases heq : t.loc = l
      · have hmt : m ∉ t.locs := hs t (by rw [find, ← heq, t.find_loc, Option.some_or])
        rw [find, Tree.find_eq_none.mpr hmt, Option.none_or] at hm
        rwa [if_pos heq]
      · rw [if_neg heq, find]
        rw [find, Option.or_eq_some_iff] at hm
        rcases hm with hm | ⟨h0, hm⟩
        · rw [hm, Option.some_or]
        · rw [h0, Option.none_or]
          obtain ⟨-, hnr, hnd⟩ := List.nodup_append.mp hn
          by_cases hl : l ∈ rest.locs
          · have hlt : l ∉ t.locs := fun hmem => hnd l hmem l hl rfl
            refine Objects.find_remove hnr (fun s h => hs s ?_) hm
            rw [find, Tree.find_eq_none.mpr hlt, Option.none_or, h]
          · have hne : ∀ u ∈ rest.trees, u.loc ≠ l := by
              intro u hu heq
              rw [← heq] at hl
              exact hl (mem_locs hu u.loc_mem)
            rwa [Objects.remove_of_ne hne]

/-! ## §3. Steps. -/

/-- What a new Varient holds. -/
def Objects.content (os : Objects B D) : Init B D → Option (Tree B D)
  | .null => some (.empty 0)
  | .pointer X a => some (.ptr 0 X a)
  | .value b members => (os.gather members).map (.val 0 b 0)
  | .copy other => os.find other

/-- An operation on the forest; `g` is what copies keep of the data.  New Varients get new names. -/
def Becomes (g : D → G) (os : Objects B D) : Op B D → Objects B D → Prop
  | .construct init, os' => ∃ c t, os.content init = some c ∧ t.value g = c.value g ∧
      os' = .varient t os
  | .assign a b, os' => ∃ s t, os.find b = some s ∧ t.loc = a ∧ t.value g = s.value g ∧
      os' = os.replace a t
  | .destroy l, os' => os' = os.remove l
  | .write l b fields, os' => ∃ p ms ms', os.find l = some (.val l b p ms) ∧
      ms.gather fields = some ms' ∧ os' = os.replace l (.val l b p ms')
  | .insert l b i other, os' => ∃ p ms s t ms', os.find l = some (.val l b p ms) ∧
      os.find other = some s ∧ t.value g = s.value g ∧
      (Objects.varient t ms).gather (ms.fields.insertIdx i (.varient t.loc)) = some ms' ∧
      os' = os.replace l (.val l b p ms')
  | .erase l b i _, os' => ∃ p ms ms', os.find l = some (.val l b p ms) ∧
      ms.gather (ms.fields.eraseIdx i) = some ms' ∧ os' = os.replace l (.val l b p ms')

/-- A step of the abstract program: different Varients have different names. -/
def AStep (g : D → G) (os : Objects B D) (op : Op B D) (os' : Objects B D) : Prop :=
  os'.locs.Nodup ∧ Becomes g os op os'

/-- The operation asks for an object of a type that the Varient does not hold. -/
def Refused (os : Objects B D) : Op B D → Prop
  | .write l b _ => ∀ p ms, os.find l ≠ some (.val l b p ms)
  | .insert l b _ _ => ∀ p ms, os.find l ≠ some (.val l b p ms)
  | .erase l b _ _ => ∀ p ms, os.find l ≠ some (.val l b p ms)
  | _ => False

/-- The Varient at `m` is not the one that the operation changes, nor inside it, nor around it. -/
def Untouched (os : Objects B D) (op : Op B D) (m : Nat) : Prop :=
  match op with
  | .construct _ => True
  | .assign l _ | .destroy l | .write l _ _ | .insert l _ _ _ | .erase l _ _ _ =>
      ∀ s t, os.find l = some s → os.find m = some t → m ∉ s.locs ∧ l ∉ t.locs

theorem Objects.find_mem {os : Objects B D} {m : Nat} {t : Tree B D} (h : os.find m = some t) :
    m ∈ os.locs :=
  (Objects.find_some h).2.1 ((Objects.find_some h).1 ▸ t.loc_mem)

/-- The content of one Varient changes. -/
theorem Objects.find_replace_untouched {os : Objects B D} {l m : Nat} {s' t : Tree B D}
    (hn : os.locs.Nodup) (hn' : (os.replace l s').locs.Nodup) (hm : os.find m = some t)
    (hu : ∀ s u, os.find l = some s → os.find m = some u → m ∉ s.locs ∧ l ∉ u.locs) :
    (os.replace l s').find m = some t := by
  by_cases hl : l ∈ os.locs
  · obtain ⟨s, hs⟩ := Objects.find_of_mem hl
    obtain ⟨hms, hlt⟩ := hu s t hs hm
    obtain ⟨K, Q, hK, -, hsplit⟩ := Objects.replace_split hs hn
    have hmK : m ∈ K := by
      have hmem := hK.mem_iff.mp (Objects.find_mem hm)
      exact (List.mem_append.mp hmem).resolve_left hms
    have hms' : m ∉ s'.locs := fun hmem =>
      (List.nodup_append.mp ((hsplit s').1.nodup_iff.mp hn')).2.2 m hmem m hmK rfl
    refine Objects.find_replace hms' hlt (fun u hu' => ?_) hn hm
    rw [hs, Option.some.injEq] at hu'
    rwa [← hu']
  · rwa [Objects.replace_of_not_mem hl]

/-- **An operation changes nothing else.** -/
theorem AStep.untouched {g : D → G} {os os' : Objects B D} {op : Op B D} {m : Nat} {t : Tree B D}
    (hn : os.locs.Nodup) (h : AStep g os op os') (hm : os.find m = some t)
    (hu : Untouched os op m) : os'.find m = some t := by
  obtain ⟨hn', h⟩ := h
  cases op with
  | construct init =>
      obtain ⟨c, u, -, -, rfl⟩ := h
      have hmu : m ∉ u.locs := fun hmem =>
        (List.nodup_append.mp hn').2.2 m hmem m (Objects.find_mem hm) rfl
      rw [Objects.find, Tree.find_eq_none.mpr hmu, Option.none_or, hm]
  | assign l b =>
      obtain ⟨s, u, -, -, -, rfl⟩ := h
      exact Objects.find_replace_untouched hn hn' hm hu
  | destroy l =>
      rw [show os' = os.remove l from h]
      exact Objects.find_remove hn (fun s hs => (hu s t hs hm).1) hm
  | write l b fields =>
      obtain ⟨p, ms, ms', -, -, rfl⟩ := h
      exact Objects.find_replace_untouched hn hn' hm hu
  | insert l b i other =>
      obtain ⟨p, ms, s, u, ms', -, -, -, -, rfl⟩ := h
      exact Objects.find_replace_untouched hn hn' hm hu
  | erase l b i k =>
      obtain ⟨p, ms, ms', -, -, rfl⟩ := h
      exact Objects.find_replace_untouched hn hn' hm hu

/-- The runs of the abstract program.  An exception leaves the forest as it is. -/
inductive ARun (g : D → G) (mayThrow : Prop) : List (Op B D) → Objects B D → Prop where
  | nil : ARun g mayThrow [] .nil
  | step {ops : List (Op B D)} {os os' : Objects B D} {op : Op B D} : ARun g mayThrow ops os →
      AStep g os op os' → ARun g mayThrow (ops ++ [op]) os'
  | thrown {ops : List (Op B D)} {os : Objects B D} {op : Op B D} : ARun g mayThrow ops os →
      Refused os op ∨ mayThrow → ARun g mayThrow (ops ++ [op]) os

end Methan
