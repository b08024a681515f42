import Mathlib.Data.Nat.Find
import Mathlib.Data.List.Infix

/-!
The pieces of a list between the occurrences of another one: there are some (`exists_pieces`), they
are what was there (`Pieces.intercalate_eq`), and they hold no occurrence (`Pieces.not_infix`).
-/

namespace AgentEngine.Lib

open List

variable {α : Type} {sep s : List α} {ps : List (List α)}

/-- The pieces of a list between the occurrences of `sep` in it, each of which is the first one
behind the one before. -/
inductive Pieces (sep : List α) : List α → List (List α) → Prop where
  | last {s : List α} (none : ¬ sep <:+: s) : Pieces sep s [s]
  | cut {p rest : List α} {ps : List (List α)}
      (first : ∀ k < p.length, ¬ sep <+: (p ++ (sep ++ rest)).drop k) (more : Pieces sep rest ps) :
      Pieces sep (p ++ (sep ++ rest)) (p :: ps)

theorem exists_pieces (ne : sep ≠ []) (s : List α) : ∃ ps, Pieces sep s ps := by
  classical
  induction hn : s.length using Nat.strongRecOn generalizing s with
  | _ n ih =>
    by_cases occurs : ∃ k, sep <+: s.drop k
    · obtain ⟨k, ⟨rest, at'⟩, first⟩ : ∃ k, sep <+: s.drop k ∧ ∀ j < k, ¬ sep <+: s.drop j :=
        ⟨Nat.find occurs, Nat.find_spec occurs, fun _ => Nat.find_min occurs⟩
      have whole : s.take k ++ (sep ++ rest) = s := by rw [at', take_append_drop]
      have shorter : rest.length < n := by
        have lengths := congrArg length whole
        have := length_pos_iff.mpr ne
        simp only [length_append] at lengths
        omega
      obtain ⟨ps, more⟩ := ih rest.length shorter rest rfl
      have cut := Pieces.cut (p := s.take k) (fun j lt => ?_) more
      · rw [whole] at cut
        exact ⟨_, cut⟩
      · rw [whole]
        exact first j (lt.trans_le (length_take_le k s))
    · refine ⟨[s], .last fun inside => occurs ?_⟩
      obtain ⟨front, back, rfl⟩ := inside
      exact ⟨front.length, by simp⟩

theorem Pieces.ne_nil (h : Pieces sep s ps) : ps ≠ [] := by
  cases h <;> exact cons_ne_nil _ _

theorem Pieces.intercalate_eq (h : Pieces sep s ps) : sep.intercalate ps = s := by
  induction h with
  | last => exact intercalate_singleton
  | cut _ more ih => rw [intercalate_cons_of_ne_nil more.ne_nil, ih, append_assoc]

theorem Pieces.eq_singleton (h : Pieces sep s ps) (short : s.length < sep.length) : ps = [s] := by
  cases h with
  | last => rfl
  | cut =>
    simp only [length_append] at short
    omega

theorem Pieces.not_infix (ne : sep ≠ []) (h : Pieces sep s ps) :
    ∀ p ∈ ps, ¬ sep <:+: p := by
  induction h with
  | last none =>
    intro p mem
    rwa [mem_singleton.mp mem]
  | @cut p rest ps first _ ih =>
    intro q mem
    rcases mem_cons.mp mem with rfl | mem
    · rintro ⟨front, back, rfl⟩
      have := length_pos_iff.mpr ne
      refine first front.length (by simp; omega) ?_
      simp
    · exact ih q mem

end AgentEngine.Lib
