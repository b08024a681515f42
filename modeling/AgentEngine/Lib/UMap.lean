import Mathlib.Data.List.AList

/-!
Hash maps with an unspecified iteration order.

A map is an association list without repeated keys (Mathlib's `AList`); the order in
which a loop meets its entries is a parameter, `IterOrder`, that may differ from map to
map. What a client proves for every `IterOrder` holds for every hash function and every
insertion history.
-/

namespace AgentEngine.Lib

/-- A finite map from `κ` to `α` whose keys are distinct. -/
abbrev UMap (κ α : Type) := AList fun _ : κ => α

section Maps

variable {κ α : Type} [DecidableEq κ]

/-- Insert a key unless it is already present. -/
def emplace (m : UMap κ α) (k : κ) (v : α) : UMap κ α :=
  if k ∈ m then m else m.insert k v

variable {m : UMap κ α} {k : κ}

theorem exists_lookup_of_mem (mem : k ∈ m) : ∃ v, m.lookup k = some v :=
  Option.isSome_iff_exists.mp (AList.lookup_isSome.mpr mem)

variable {v : α}

theorem mem_of_lookup (found : m.lookup k = some v) : k ∈ m :=
  AList.lookup_isSome.mp (Option.isSome_iff_exists.mpr ⟨v, found⟩)

theorem lookup_emplace_self (v : α) (fresh : k ∉ m) : (emplace m k v).lookup k = some v := by
  simp [emplace, fresh]

theorem lookup_emplace_ne {k k' : κ} (v : α) (ne : k' ≠ k) :
    (emplace m k v).lookup k' = m.lookup k' := by
  unfold emplace
  split
  · rfl
  · exact AList.lookup_insert_ne ne

/-- Emplacing the value that a present key already has changes no lookup. -/
theorem lookup_emplace_self_of_agree
    (agree : ∀ v', m.lookup k = some v' → v' = v) : (emplace m k v).lookup k = some v := by
  by_cases present : k ∈ m
  · obtain ⟨v', hv'⟩ := exists_lookup_of_mem present
    rw [emplace, if_pos present, hv', agree v' hv']
  · exact lookup_emplace_self v present

theorem lookup_insert_eq_some {k k' : κ} {v v' : α} :
    (m.insert k v).lookup k' = some v' ↔ k' = k ∧ v' = v ∨ k' ≠ k ∧ m.lookup k' = some v' := by
  by_cases same : k' = k
  · subst same
    rw [AList.lookup_insert]
    simp [eq_comm]
  · rw [AList.lookup_insert_ne same]
    simp [same]

/-- Emplace the entries of a list, one after the other. -/
def emplaceAll (m : UMap κ α) (entries : List (κ × α)) : UMap κ α :=
  entries.foldl (fun m e => emplace m e.1 e.2) m

theorem mem_emplace {k k' : κ} : k' ∈ emplace m k v ↔ k' ∈ m ∨ k' = k := by
  unfold emplace
  split
  · rename_i present
    constructor
    · exact .inl
    · rintro (mem | rfl)
      · exact mem
      · exact present
  · rw [AList.mem_insert, or_comm]

variable {entries : List (κ × α)}

theorem mem_emplaceAll : k ∈ emplaceAll m entries ↔ k ∈ m ∨ k ∈ entries.map Prod.fst := by
  induction entries generalizing m with
  | nil => simp [emplaceAll]
  | cons e entries ih =>
    rw [emplaceAll, List.foldl_cons, ← emplaceAll, ih, mem_emplace, List.map_cons, List.mem_cons,
      or_assoc]

/-- What is found after emplacing was there before or is one of the entries. -/
theorem lookup_emplaceAll
    (found : (emplaceAll m entries).lookup k = some v) : m.lookup k = some v ∨ (k, v) ∈ entries := by
  induction entries generalizing m with
  | nil => exact .inl found
  | cons e entries ih =>
    rw [emplaceAll, List.foldl_cons, ← emplaceAll] at found
    rcases ih found with early | late
    · by_cases same : k = e.1
      · subst same
        by_cases present : e.1 ∈ m
        · rw [emplace, if_pos present] at early
          exact .inl early
        · rw [lookup_emplace_self e.2 present, Option.some.injEq] at early
          exact .inr (early ▸ List.mem_cons_self)
      · rw [lookup_emplace_ne e.2 same] at early
        exact .inl early
    · exact .inr (List.mem_cons_of_mem e late)

/-- A key is found after emplacing if it is among the entries. -/
theorem exists_lookup_emplaceAll
    (mem : (k, v) ∈ entries) : ∃ v', (emplaceAll m entries).lookup k = some v' :=
  exists_lookup_of_mem (mem_emplaceAll.mpr (.inr (List.mem_map.mpr ⟨_, mem, rfl⟩)))

end Maps

/-- An iteration order for each map of a family: some permutation of its entries. -/
structure IterOrder (ι κ : Type) where
  entries : {α : Type} → ι → UMap κ α → List (κ × α)
  perm : ∀ {α : Type} (i : ι) (m : UMap κ α),
    (entries i m).Perm (m.entries.map fun e => (e.1, e.2))

namespace IterOrder

variable {ι κ α : Type}

theorem mem_entries [DecidableEq κ] (o : IterOrder ι κ) (i : ι) (m : UMap κ α) {k : κ} {v : α} :
    (k, v) ∈ o.entries i m ↔ m.lookup k = some v := by
  rw [(o.perm i m).mem_iff, List.mem_map]
  constructor
  · rintro ⟨e, he, heq⟩
    obtain ⟨rfl, rfl⟩ := Prod.mk.inj heq
    exact AList.mem_lookup_iff.mpr he
  · intro found
    exact ⟨⟨k, v⟩, AList.mem_lookup_iff.mp found, rfl⟩

/-- The values met by a loop are the values of the map. -/
theorem mem_values [DecidableEq κ] (o : IterOrder ι κ) (i : ι) (m : UMap κ α) {v : α} :
    v ∈ (o.entries i m).map Prod.snd ↔ ∃ k, m.lookup k = some v := by
  simp [← o.mem_entries i m]

/-- The order in which the association list itself stands. -/
def stored : IterOrder ι κ where
  entries _ m := m.entries.map fun e => (e.1, e.2)
  perm _ _ := .refl _

/-- The stored order with the maps selected by `p` walked backwards. -/
def reversed (p : ι → Bool) : IterOrder ι κ where
  entries i m :=
    if p i then (m.entries.map fun e => (e.1, e.2)).reverse
    else m.entries.map fun e => (e.1, e.2)
  perm i m := by
    split
    · exact List.reverse_perm _
    · exact .refl _

end IterOrder

end AgentEngine.Lib
