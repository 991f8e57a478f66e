import Mathlib
import ScriptLang.Proofs.Binary64.Comparison
import ScriptLang.Value.Order
/-!
# One order for numbers of both kinds, and one for texts

Every number that is not a NaN has a place on the line of integers: a whole number and a float are counted in
the same unit, so neither is rounded when they meet. Comparing two numbers is comparing their places, whichever
kinds they have, and texts are compared as they are. All laws of the operators are then laws of one order on
keys. Equality has rules of its own, one for each pair of kinds, and they agree with that order.
-/

namespace ScriptLang

namespace Binary64

/-! ### Which floats have no place -/

theorem rank?_eq_none_iff {x : Binary64} : x.rank? = none ↔ x = .nan := by
  cases x with
  | nan => exact iff_of_true rfl rfl
  | infinite | finite => exact iff_of_false nofun nofun

theorem rank?_ofFloat_eq_none_iff (x : Float) : (ofFloat x).rank? = none ↔ x.isNaN = true := by
  rw [rank?_eq_none_iff, ofFloat, ofBits_eq_nan_iff, isNaN_iff]

end Binary64

/-- What a comparison says of two values in this order. -/
def Operator.accepts : Operator → Ordering → Bool
  | .equal, ordering => ordering == .eq
  | .notEqual, ordering => ordering != .eq
  | .less, ordering => ordering == .lt
  | .lessEqual, ordering => ordering.isLE
  | .greater, ordering => ordering == .gt
  | .greaterEqual, ordering => ordering.isGE
  | _, _ => false

namespace Value

def isNaN : Value → Bool
  | .float x => x.isNaN
  | _ => false

/-- The comparison `left operator right` comes out true. -/
def Compares (left : Value) (operator : Operator) (right : Value) : Prop :=
  comparison operator left right = .ok (.bool true)

/-- The laws of a total order, as the operators state them of three values. -/
structure OrderLaws (a b c : Value) : Prop where
  evaluates : ∀ operator, operator.isComparison = true → ∃ result, comparison operator a b = .ok (.bool result)
  exactlyOne :
    (a.Compares .less b ∧ ¬a.Compares .equal b ∧ ¬a.Compares .greater b) ∨
    (¬a.Compares .less b ∧ a.Compares .equal b ∧ ¬a.Compares .greater b) ∨
    (¬a.Compares .less b ∧ ¬a.Compares .equal b ∧ a.Compares .greater b)
  less_iff_greater : a.Compares .less b ↔ b.Compares .greater a
  lessEqual_iff : a.Compares .lessEqual b ↔ a.Compares .less b ∨ a.Compares .equal b
  greaterEqual_iff : a.Compares .greaterEqual b ↔ b.Compares .lessEqual a
  notEqual_iff : a.Compares .notEqual b ↔ ¬a.Compares .equal b
  less_trans : a.Compares .less b → b.Compares .less c → a.Compares .less c
  lessEqual_trans : a.Compares .lessEqual b → b.Compares .lessEqual c → a.Compares .lessEqual c
  equal_refl : a.Compares .equal a
  equal_symm : a.Compares .equal b → b.Compares .equal a
  equal_trans : a.Compares .equal b → b.Compares .equal c → a.Compares .equal c
  less_of_equal_of_less : a.Compares .equal b → b.Compares .less c → a.Compares .less c

/-! ### Comparing by an order -/

theorem beq_eq_compare {α : Type} [Ord α] [Std.LawfulEqOrd α] [BEq α] [LawfulBEq α] (a b : α) :
    (a == b) = (some (compare a b) == some .eq) := by
  rw [Bool.eq_iff_iff, beq_iff_eq, beq_iff_eq, Option.some_inj, Std.compare_eq_iff_eq]

/-- Equality has a rule for each pair of kinds, and it agrees with the order of the values whenever they have one. -/
theorem equals_eq_of_order? {left right : Value} {ordering : Option Ordering}
    (h : left.order? right = some ordering) : left.equals right = (ordering == some .eq) := by
  cases left with
  | int a =>
      cases right with
      | int b =>
          cases h
          show (a == b) = (some (compare a.toInt b.toInt) == some .eq)
          rw [← beq_eq_compare, Bool.eq_iff_iff, beq_iff_eq, beq_iff_eq, Int64.toInt_inj]
      | float x =>
          cases h
          rfl
      | bool | string | null => cases h
  | float x =>
      cases right with
      | int n =>
          cases h
          show (compareIntFloat n.toInt x == some .eq) = ((compareIntFloat n.toInt x).map Ordering.swap == some .eq)
          cases compareIntFloat n.toInt x with
          | none => rfl
          | some ordering => cases ordering <;> rfl
      | float y =>
          cases h
          exact beq_eq_compareFloats x y
      | bool | string | null => cases h
  | string a =>
      cases right with
      | string b =>
          cases h
          exact beq_eq_compare a b
      | int | float | bool | null => cases h
  | bool | null => cases right <;> cases h

theorem comparison_of_order? {left right : Value} {ordering : Ordering} {operator : Operator}
    (h : left.order? right = some (some ordering)) (hoperator : operator.isComparison = true) :
    comparison operator left right = .ok (.bool (operator.accepts ordering)) := by
  cases operator with
  | add | subtract | multiply | divide => cases hoperator
  | equal | notEqual =>
      rw [comparison, equals_eq_of_order? h]
      cases ordering <;> rfl
  | less | lessEqual | greater | greaterEqual =>
      simp only [comparison, h]
      cases ordering <;> rfl

section

variable {α : Type} [Ord α] {key : Value → α} {family : Value → Prop}

/-- In a family of values that are compared by a key, a comparison is one of keys. -/
theorem compares_iff (hkey : ∀ a b, family a → family b → a.order? b = some (some (compare (key a) (key b))))
    {a b : Value} (ha : family a) (hb : family b) {operator : Operator} (hoperator : operator.isComparison = true) :
    a.Compares operator b ↔ operator.accepts (compare (key a) (key b)) = true := by
  rw [Compares, comparison_of_order? (hkey a b ha hb) hoperator]
  simp

theorem orderLaws_of_key [Std.TransOrd α]
    (hkey : ∀ a b, family a → family b → a.order? b = some (some (compare (key a) (key b))))
    {a b c : Value} (ha : family a) (hb : family b) (hc : family c) : OrderLaws a b c := by
  have hless {x y : Value} (hx : family x) (hy : family y) :
      x.Compares .less y ↔ compare (key x) (key y) = .lt := by
    rw [compares_iff hkey hx hy rfl, Operator.accepts, beq_iff_eq]
  have hequal {x y : Value} (hx : family x) (hy : family y) :
      x.Compares .equal y ↔ compare (key x) (key y) = .eq := by
    rw [compares_iff hkey hx hy rfl, Operator.accepts, beq_iff_eq]
  have hgreater {x y : Value} (hx : family x) (hy : family y) :
      x.Compares .greater y ↔ compare (key x) (key y) = .gt := by
    rw [compares_iff hkey hx hy rfl, Operator.accepts, beq_iff_eq]
  have hlessEqual {x y : Value} (hx : family x) (hy : family y) :
      x.Compares .lessEqual y ↔ (compare (key x) (key y)).isLE = true :=
    compares_iff hkey hx hy rfl
  constructor
  case evaluates =>
    intro operator hoperator
    exact ⟨_, comparison_of_order? (hkey a b ha hb) hoperator⟩
  case exactlyOne =>
    rw [hless ha hb, hequal ha hb, hgreater ha hb]
    cases compare (key a) (key b) <;> simp
  case less_iff_greater =>
    rw [hless ha hb, hgreater hb ha]
    exact Std.OrientedCmp.gt_iff_lt.symm
  case lessEqual_iff =>
    rw [hlessEqual ha hb, hless ha hb, hequal ha hb]
    exact Ordering.isLE_iff_eq_lt_or_eq_eq
  case greaterEqual_iff =>
    rw [compares_iff hkey ha hb rfl, hlessEqual hb ha, Std.OrientedOrd.eq_swap]
    cases compare (key b) (key a) <;> simp [Operator.accepts]
  case notEqual_iff =>
    rw [compares_iff hkey ha hb rfl, hequal ha hb, Operator.accepts, bne_iff_ne]
  case less_trans =>
    rw [hless ha hb, hless hb hc, hless ha hc]
    exact Std.TransCmp.lt_trans
  case lessEqual_trans =>
    rw [hlessEqual ha hb, hlessEqual hb hc, hlessEqual ha hc]
    exact Std.TransCmp.isLE_trans
  case equal_refl =>
    rw [hequal ha ha]
    exact Std.ReflCmp.compare_self
  case equal_symm =>
    rw [hequal ha hb, hequal hb ha]
    exact Std.OrientedCmp.eq_comm.mp
  case equal_trans =>
    rw [hequal ha hb, hequal hb hc, hequal ha hc]
    exact Std.TransCmp.eq_trans
  case less_of_equal_of_less =>
    rw [hequal ha hb, hless hb hc, hless ha hc]
    exact Std.TransCmp.lt_of_eq_of_lt

end

/-! ### Numbers -/

/-- The place of a number on the line of integers, in units of the smallest positive float. -/
def place? : Value → Option Int
  | .int n => some (n.toInt * Binary64.unitsPerOne)
  | .float x => (Binary64.ofFloat x).rank?
  | _ => none

theorem place?_eq_none_iff {value : Value} (h : value.isNumber = true) :
    value.place? = none ↔ value.isNaN = true := by
  cases value with
  | int n => exact iff_of_false nofun nofun
  | float x => exact Binary64.rank?_ofFloat_eq_none_iff x
  | bool | string | null => cases h

theorem compare_mul_right {scale : Int} (hscale : 0 < scale) (m n : Int) :
    compare (m * scale) (n * scale) = compare m n := by
  rcases Int.lt_trichotomy m n with h | h | h
  · rw [Std.compare_eq_lt.mpr h, Std.compare_eq_lt.mpr (Int.mul_lt_mul_of_pos_right h hscale)]
  · rw [h, Std.compare_self, Std.compare_self]
  · rw [Std.compare_eq_gt.mpr h, Std.compare_eq_gt.mpr (Int.mul_lt_mul_of_pos_right h hscale)]

/-- Numbers are compared by their places, and a number without one has no order. -/
theorem order?_of_isNumber {left right : Value} (hleft : left.isNumber = true) (hright : right.isNumber = true) :
    left.order? right = some (left.place?.bind fun a => right.place?.map fun b => compare a b) := by
  cases left with
  | int m =>
      cases right with
      | int n =>
          have hpos : (0 : Int) < Binary64.unitsPerOne := Int.natCast_pos.mpr (by decide +kernel)
          simp only [order?, place?, Option.bind_some, Option.map_some, compare_mul_right hpos]
      | float y => rfl
      | bool | string | null => cases hright
  | float x =>
      cases right with
      | int n =>
          simp only [order?, place?, compareIntFloat, Option.map_map]
          cases (Binary64.ofFloat x).rank? with
          | none => rfl
          | some units =>
              simp only [Option.map_some, Option.bind_some, Function.comp_apply]
              rw [← Std.OrientedOrd.eq_swap]
      | float y =>
          simp only [order?, place?, compareFloats]
          cases (Binary64.ofFloat x).rank? <;> cases (Binary64.ofFloat y).rank? <;> rfl
      | bool | string | null => cases hright
  | bool | string | null => cases hleft

theorem order?_of_not_isNaN {left right : Value} (hleft : left.isNumber = true ∧ left.isNaN = false)
    (hright : right.isNumber = true ∧ right.isNaN = false) :
    left.order? right = some (some (compare (left.place?.getD 0) (right.place?.getD 0))) := by
  have hplace {value : Value} (h : value.isNumber = true ∧ value.isNaN = false) :
      value.place? = some (value.place?.getD 0) := by
    cases hunits : value.place? with
    | none => simp [(place?_eq_none_iff h.1).mp hunits] at h
    | some units => rfl
  rw [order?_of_isNumber hleft.1 hright.1, hplace hleft, hplace hright]
  rfl

theorem order?_of_isNaN {left right : Value} (hleft : left.isNumber = true) (hright : right.isNumber = true)
    (hnan : left.isNaN = true ∨ right.isNaN = true) : left.order? right = some none := by
  rw [order?_of_isNumber hleft hright]
  rcases hnan with hnan | hnan
  · rw [(place?_eq_none_iff hleft).mpr hnan, Option.bind_none]
  · rw [(place?_eq_none_iff hright).mpr hnan]
    cases left.place? <;> rfl

theorem order?_of_string {left right : Value} (hleft : left.kind = .string) (hright : right.kind = .string) :
    left.order? right = some (some (compare left.text right.text)) := by
  cases left with
  | string a =>
      cases right with
      | string b => rfl
      | _ => cases hright
  | _ => cases hleft

/-! ### The laws -/

/-- Numbers of either kind, none of them a NaN, or nothing but texts. -/
def Comparable (values : List Value) : Prop :=
  (∀ value ∈ values, value.isNumber = true ∧ value.isNaN = false) ∨ ∀ value ∈ values, value.kind = .string

theorem Comparable.orderLaws {a b c : Value} (h : Comparable [a, b, c]) : OrderLaws a b c := by
  rcases h with hnumbers | htexts
  · simp only [List.forall_mem_cons] at hnumbers
    obtain ⟨ha, hb, hc, _⟩ := hnumbers
    exact orderLaws_of_key (fun _ _ => order?_of_not_isNaN) ha hb hc
  · simp only [List.forall_mem_cons] at htexts
    obtain ⟨ha, hb, hc, _⟩ := htexts
    exact orderLaws_of_key (fun _ _ => order?_of_string) ha hb hc

/-- Numbers of both kinds stand in one total order and texts in another, and a NaN stands in none: it is only
ever unequal. -/
theorem comparison_totalOrder :
    (∀ a b c, Comparable [a, b, c] → OrderLaws a b c) ∧
    ∀ a b : Value, a.isNumber = true → b.isNumber = true → (a.isNaN = true ∨ b.isNaN = true) →
      (∀ operator ∈ [Operator.less, .lessEqual, .greater, .greaterEqual, .equal],
        comparison operator a b = .ok (.bool false)) ∧
      comparison .notEqual a b = .ok (.bool true) := by
  refine ⟨fun a b c h => h.orderLaws, fun a b ha hb hnan => ?_⟩
  have horder := order?_of_isNaN ha hb hnan
  have hequals := equals_eq_of_order? horder
  constructor
  · intro operator hoperator
    simp only [List.mem_cons, List.not_mem_nil, or_false] at hoperator
    rcases hoperator with rfl | rfl | rfl | rfl | rfl
    · simp [comparison, horder, holds]
    · simp [comparison, horder, holds]
    · simp [comparison, horder, holds]
    · simp [comparison, horder, holds]
    · simp [comparison, hequals]
  · simp [comparison, hequals]

/-- The least whole number that is no float stands above the float that it would be rounded to. -/
theorem comparison_totalOrder_beyond_floats :
    (Comparable [.int 9007199254740992, .float (Float.ofBits 0x4340000000000000), .int 9007199254740993] ∧
      Compares (.int 9007199254740992) .equal (.float (Float.ofBits 0x4340000000000000)) ∧
      Compares (.float (Float.ofBits 0x4340000000000000)) .less (.int 9007199254740993) ∧
      Compares (.int 9007199254740992) .less (.int 9007199254740993)) ∧
    isNaN (.float (Float.ofBits 0x7ff8000000000000)) = true ∧
    comparison .notEqual (.int 9007199254740993) (.float (Float.ofBits 0x7ff8000000000000)) = .ok (.bool true) := by
  have hnumbers : ∀ value ∈
      [Value.int 9007199254740992, .float (Float.ofBits 0x4340000000000000), .int 9007199254740993],
      value.isNumber = true ∧ value.isNaN = false := by decide +kernel
  have hequal : Compares (.int 9007199254740992) .equal (.float (Float.ofBits 0x4340000000000000)) :=
    (compares_iff (fun _ _ => order?_of_not_isNaN) (hnumbers _ (by simp)) (hnumbers _ (by simp)) rfl).mpr
      (by decide +kernel)
  have hless : Compares (.float (Float.ofBits 0x4340000000000000)) .less (.int 9007199254740993) :=
    (compares_iff (fun _ _ => order?_of_not_isNaN) (hnumbers _ (by simp)) (hnumbers _ (by simp)) rfl).mpr
      (by decide +kernel)
  have hlaws := comparison_totalOrder.1 _ _ _ (.inl hnumbers)
  have hnan : isNaN (.float (Float.ofBits 0x7ff8000000000000)) = true := by decide +kernel
  exact ⟨⟨.inl hnumbers, hequal, hless, hlaws.less_of_equal_of_less hequal hless⟩, hnan,
    (comparison_totalOrder.2 _ _ rfl rfl (.inr hnan)).2⟩

end Value

end ScriptLang
