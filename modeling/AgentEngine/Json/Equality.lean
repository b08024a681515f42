import AgentEngine.Json.Any

/-!
`Equal` is an equivalence only on values without integers.

Two integers of one type are not compared: `Equal` throws. A number that was parsed is compared
with an integer by its value and with another such number by its text, so that `1` and `01` are
both equal to the integer 1 and not to each other.

* `Textual.equal_eq`: on values without integers, `Equal` is equality.
* `equalLaws_iff`: on a set of values, `Equal` is an equivalence that never throws iff no value of
  the set has an integer in it.
-/

namespace AgentEngine.Json

open Lib

/-- Values whose numbers are all texts. -/
inductive Textual : Any → Prop where
  | null : Textual .null
  | bool (b : Bool) : Textual (.bool b)
  | string (s : List UInt8) : Textual (.string s)
  | number (text : List UInt8) : Textual (.number text)
  | array {items : List Any} (h : ∀ a ∈ items, Textual a) : Textual (.array items)
  | map {entries : List (List UInt8 × Any)} (h : ∀ e ∈ entries, Textual e.2) :
      Textual (.map entries)

/-- On these values, `Equal` does not throw and is an equivalence. -/
structure EqualLaws (values : Set Any) : Prop where
  total : ∀ a ∈ values, ∀ b ∈ values, ∃ r, equal a b = .ok r
  refl : ∀ a ∈ values, equal a a = .ok true
  symm : ∀ a ∈ values, ∀ b ∈ values, equal a b = .ok true → equal b a = .ok true
  trans : ∀ a ∈ values, ∀ b ∈ values, ∀ c ∈ values,
    equal a b = .ok true → equal b c = .ok true → equal a c = .ok true

/-- The items as entries of one name. -/
def asEntries (items : List Any) : List (List UInt8 × Any) := items.map (Prod.mk [])

theorem forall_mem_asEntries {items : List Any} {P : Any → Prop} :
    (∀ e ∈ asEntries items, P e.2) ↔ ∀ a ∈ items, P a := List.forall_mem_map

theorem equalItems_eq (lhs rhs : List Any) :
    equalItems lhs rhs = equalEntries (asEntries lhs) (asEntries rhs) := by
  unfold asEntries
  induction lhs generalizing rhs with
  | nil => simp [equalItems, equalEntries]
  | cons a lhs ih =>
    cases rhs with
    | nil => simp [equalItems, equalEntries]
    | cons b rhs =>
      rw [List.map_cons, List.map_cons, equalItems, equalEntries, ih, if_neg (not_not.mpr rfl)]

/-! ### Without integers -/

open Classical in
theorem equalEntries_eq {lhs rhs : List (List UInt8 × Any)}
    (h : ∀ e ∈ lhs, ∀ e' ∈ rhs, equal e.2 e'.2 = .ok (decide (e.2 = e'.2)))
    (len : lhs.length = rhs.length) : equalEntries lhs rhs = .ok (decide (lhs = rhs)) := by
  induction lhs generalizing rhs with
  | nil =>
    obtain rfl := List.length_eq_zero_iff.mp len.symm
    simp [equalEntries]
  | cons e lhs ih =>
    cases rhs with
    | nil => cases len
    | cons e' rhs =>
      have rest := ih (fun e mem e' mem' =>
        h e (List.mem_cons_of_mem _ mem) e' (List.mem_cons_of_mem _ mem')) (Nat.succ.inj len)
      rw [equalEntries, h e List.mem_cons_self e' List.mem_cons_self, rest]
      by_cases key : e.1 = e'.1
      · by_cases value : e.2 = e'.2
        · simp [key, value, Prod.ext_iff, bind, Except.bind]
        · simp [key, value, Prod.ext_iff, bind, Except.bind]
      · simp [key, Prod.ext_iff]

open Classical in
theorem Textual.equal_eq {a b : Any} (ha : Textual a) (hb : Textual b) :
    equal a b = .ok (decide (a = b)) := by
  induction ha generalizing b with
  | null => cases hb <;> simp [equal, numberEqual]
  | bool c => cases hb <;> simp [equal, numberEqual, Bool.beq_eq_decide_eq]
  | string s | number text => cases hb <;> simp [equal, numberEqual, beq_eq_decide]
  | @array items h ih =>
    cases hb with
    | @array items' h' =>
      rw [equal]
      by_cases len : items.length = items'.length
      · have same : asEntries items = asEntries items' ↔ items = items' :=
          (List.map_injective_iff.mpr (Prod.mk_right_injective _)).eq_iff
        rw [if_neg (not_not.mpr len), equalItems_eq, equalEntries_eq (forall_mem_asEntries.mpr
          fun a mem => forall_mem_asEntries.mpr fun b mem' => ih a mem (h' b mem'))
          (by simpa [asEntries] using len)]
        simp only [same, Any.array.injEq]
      · rw [if_pos len, decide_eq_false fun e => len (by rw [Any.array.inj e])]
    | _ => simp [equal, numberEqual]
  | @map entries h ih =>
    cases hb with
    | @map entries' h' =>
      rw [equal]
      by_cases len : entries.length = entries'.length
      · rw [if_neg (not_not.mpr len),
          equalEntries_eq (fun e mem e' mem' => ih e mem (h' e' mem')) len]
        simp only [Any.map.injEq]
      · rw [if_pos len, decide_eq_false fun e => len (by rw [Any.map.inj e])]
    | _ => simp [equal, numberEqual]

/-! ### Integers -/

theorem textual_of_equalEntries {entries : List (List UInt8 × Any)}
    (h : ∀ e ∈ entries, equal e.2 e.2 = .ok true → Textual e.2)
    (same : equalEntries entries entries = .ok true) : ∀ e ∈ entries, Textual e.2 := by
  induction entries with
  | nil => exact List.forall_mem_nil _
  | cons e entries ih =>
    rw [List.forall_mem_cons] at h ⊢
    rw [equalEntries, if_neg (not_not.mpr rfl)] at same
    cases first : equal e.2 e.2 with
    | error x =>
      rw [first] at same
      cases same
    | ok r =>
      rw [first] at same
      cases r with
      | false => cases same
      | true => exact ⟨h.1 first, ih h.2 same⟩

/-- Only values without integers are equal to themselves. -/
theorem textual_of_equal {a : Any} (same : equal a a = .ok true) : Textual a := by
  induction size : sizeOf a using Nat.strongRecOn generalizing a with
  | ind n ih =>
    cases a with
    | null => exact .null
    | bool b => exact .bool b
    | string s => exact .string s
    | number text => exact .number text
    | integer _ | other _ =>
      rw [equal, if_neg (not_not.mpr rfl)] at same
      cases same
    | array items =>
      rw [equal, if_neg (not_not.mpr rfl), equalItems_eq] at same
      have inside : ∀ a ∈ items, equal a a = .ok true → Textual a := by
        intro a mem same
        have := List.sizeOf_lt_of_mem mem
        exact ih _ (by rw [← size, Any.array.sizeOf_spec]; omega) same rfl
      exact .array (forall_mem_asEntries.mp
        (textual_of_equalEntries (forall_mem_asEntries.mpr inside) same))
    | map entries =>
      rw [equal, if_neg (not_not.mpr rfl)] at same
      refine .map (textual_of_equalEntries ?_ same)
      rintro ⟨key, a⟩ mem same
      have := List.sizeOf_lt_of_mem mem
      rw [Prod.mk.sizeOf_spec] at this
      exact ih (sizeOf a) (by rw [← size, Any.map.sizeOf_spec]; omega) same rfl

theorem equalLaws_iff (values : Set Any) : EqualLaws values ↔ ∀ a ∈ values, Textual a := by
  classical
  refine ⟨fun laws a mem => textual_of_equal (laws.refl a mem), fun textual => ?_⟩
  have eq : ∀ a ∈ values, ∀ b ∈ values, equal a b = .ok (decide (a = b)) :=
    fun a mem b mem' => (textual a mem).equal_eq (textual b mem')
  have iff : ∀ a ∈ values, ∀ b ∈ values, (equal a b = .ok true ↔ a = b) := by
    intro a mem b mem'
    rw [eq a mem b mem', Except.ok.injEq, decide_eq_true_iff]
  constructor
  · exact fun a mem b mem' => ⟨_, eq a mem b mem'⟩
  · exact fun a mem => (iff a mem a mem).mpr rfl
  · exact fun a mem b mem' same => (iff b mem' a mem).mpr ((iff a mem b mem').mp same).symm
  · exact fun a mem b mem' c mem'' same same' => (iff a mem c mem'').mpr
      (((iff a mem b mem').mp same).trans ((iff b mem' c mem'').mp same'))

/-- An integer is not equal to itself: `Equal` throws. -/
theorem not_equalLaws_json : ¬ EqualLaws {a | IsJson a} := by
  intro laws
  have one : IsJson (.integer ⟨.int32, 1, by decide, by decide⟩) := .integer _
  cases textual_of_equal (laws.refl _ one)

example : equal (.number [49]) (.integer ⟨.int32, 1, by decide, by decide⟩) = .ok true ∧
    equal (.integer ⟨.int32, 1, by decide, by decide⟩) (.number [48, 49]) = .ok true ∧
    equal (.number [49]) (.number [48, 49]) = .ok false := by
  simp only [equal, numberEqual]
  decide

end AgentEngine.Json
