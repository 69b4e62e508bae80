import Refinement.Proofs.Naming.Lexicon

/-!
# The names of the vocabulary

The name of a constant, an order or a marker is a path with arguments. The path tells which it is,
where a client declares nothing at a path that is taken, and the arguments tell the rest.

* `IntKind.memberText_injective`: the members of a type are told apart by their texts.
* `Constant.eq_of_spelling_eq`, `NamedOrder.eq_of_spelling_eq`, `Marker.eq_of_spelling_eq`:
  constants, orders and markers are told apart by their names.
-/

namespace Refinement

/-! ## Members of integer types -/

namespace IntKind

variable {k : IntKind}

theorem memberText_cases (n : k.Val) :
    (n.toInt = k.max ∧ k.memberText n = k.name ++ "::MAX") ∨
      (n.toInt = k.min ∧ k.memberText n = k.name ++ "::MIN") ∨
      k.memberText n = toString n.toInt := by
  unfold memberText
  split
  · next h => exact .inl ⟨h, rfl⟩
  split
  · next h =>
    rw [Bool.and_eq_true, decide_eq_true_eq] at h
    exact .inr (.inl ⟨h.2, rfl⟩)
  · exact .inr (.inr rfl)

theorem isPlain_name (k : IntKind) : Spelling.isPlain k.name.toList = true := by
  cases k <;> decide

theorem isPlain_memberText (n : k.Val) : Spelling.isPlain (k.memberText n).toList = true := by
  rcases memberText_cases n with ⟨-, h⟩ | ⟨-, h⟩ | h
  · rw [h, String.toList_append]
    exact Spelling.isPlain_append k.isPlain_name (by decide)
  · rw [h, String.toList_append]
    exact Spelling.isPlain_append k.isPlain_name (by decide)
  · rw [h]
    exact Spelling.isPlain_toString_int n.toInt

/-- The names of the ends of a type are no numbers. -/
theorem name_append_ne_toString {s : String} (h : ':' ∈ s.toList) (n : Int) :
    k.name ++ s ≠ toString n := by
  intro heq
  have hcolon : ':' ∈ (toString n).toList := by
    rw [← heq, String.toList_append]
    exact List.mem_append_right _ h
  rcases Text.isDigit_of_mem_toString_int hcolon with hdigit | hminus
  · exact absurd hdigit (by decide)
  · exact absurd hminus (by decide)

theorem name_append_max_ne (k : IntKind) : k.name ++ "::MAX" ≠ k.name ++ "::MIN" := by
  cases k <;> decide

/-- The members of a type are told apart by their texts. -/
theorem memberText_injective {m n : k.Val} (h : k.memberText m = k.memberText n) : m = n := by
  apply Val.ext
  rcases memberText_cases m with ⟨hm, htm⟩ | ⟨hm, htm⟩ | htm <;>
    rcases memberText_cases n with ⟨hn, htn⟩ | ⟨hn, htn⟩ | htn <;> rw [htm, htn] at h
  · exact hm.trans hn.symm
  · exact absurd h k.name_append_max_ne
  · exact absurd h (name_append_ne_toString (by decide) _)
  · exact absurd h.symm k.name_append_max_ne
  · exact hm.trans hn.symm
  · exact absurd h (name_append_ne_toString (by decide) _)
  · exact absurd h.symm (name_append_ne_toString (by decide) _)
  · exact absurd h.symm (name_append_ne_toString (by decide) _)
  · exact Text.toString_int_injective h

end IntKind

variable {S : Expression.Scope}

/-! ## Constants -/

namespace Constant

/-- The client declares the constant, if the library does not. -/
def Over (S : Expression.Scope) : Constant → Prop
  | .user c => c ∈ S.constants
  | _ => True

/-- What the name of a constant starts with. -/
def head : Constant → ConstantHead ⊕ UserConstant
  | .char _ => .inl .char
  | .bool _ => .inl .bool
  | .int k _ => .inl (.int k)
  | .zero => .inl .zero
  | .user c => .inr c

/-- The arguments of the name of a constant. -/
def arguments : Constant → List Spelling
  | .char c => [.word (String.ofList (Text.quoteChar c)).toList []]
  | .bool b => [.word (if b then "true" else "false").toList []]
  | .int k n => [.word (k.memberText n).toList []]
  | .zero => []
  | .user _ => []

theorem spelling_typeName (c : Constant) :
    c.typeName.spelling =
      .word (ConstantHead.lexicon.word UserConstant.path c.head) c.arguments := by
  cases c <;> rfl

theorem Over.head {c : Constant} (h : c.Over S) : ∀ d ∈ c.head.getRight?, d ∈ S.constants := by
  cases c with
  | user c => rintro d ⟨⟩; exact h
  | _ => rintro d ⟨⟩

theorem legible (hS : S.Distinct) {c : Constant} (h : c.Over S) : c.typeName.spelling.Legible := by
  rw [spelling_typeName]
  refine ⟨hS.constants.isWord h.head, ?_⟩
  cases c with
  | char c => exact ⟨⟨by rw [String.toList_ofList]; exact .quoted c, trivial⟩, trivial⟩
  | bool b => exact ⟨⟨.plain (by cases b <;> decide), trivial⟩, trivial⟩
  | int k n => exact ⟨⟨.plain (IntKind.isPlain_memberText n), trivial⟩, trivial⟩
  | zero => trivial
  | user c => trivial

/-- Constants are told apart by their names. -/
theorem eq_of_spelling_eq (hS : S.Distinct) {a b : Constant} (ha : a.Over S) (hb : b.Over S)
    (h : a.typeName.spelling = b.typeName.spelling) : a = b := by
  rw [spelling_typeName, spelling_typeName] at h
  obtain ⟨hword, harguments⟩ := Spelling.word.inj h
  have hhead : a.head = b.head := hS.constants.word_inj ha.head hb.head hword
  cases a with
  | char c =>
    cases b with
    | char d =>
      have hquoted : Text.quoteChar c ++ [] = Text.quoteChar d ++ [] := by
        simpa [arguments] using harguments
      exact congrArg char (Text.quoteChar_append_inj hquoted).1
    | _ => nomatch hhead
  | bool c =>
    cases b with
    | bool d =>
      have htruth :
          (if c then "true" else "false").toList = (if d then "true" else "false").toList := by
        simpa [arguments] using harguments
      refine congrArg bool ?_
      revert htruth
      cases c <;> cases d <;> decide
    | _ => nomatch hhead
  | int k m =>
    cases b with
    | int l n =>
      cases hhead
      have hmember : (k.memberText m).toList = (k.memberText n).toList := by
        simpa [arguments] using harguments
      rw [IntKind.memberText_injective (String.toList_inj.1 hmember)]
    | _ => nomatch hhead
  | zero =>
    cases b with
    | zero => rfl
    | _ => nomatch hhead
  | user c =>
    cases b with
    | user d => exact congrArg user (Sum.inr.inj hhead)
    | _ => nomatch hhead

end Constant

/-! ## Orders -/

namespace NamedOrder

/-- The client declares the order under the reversals, if the library does not. -/
def Over (S : Expression.Scope) : NamedOrder → Prop
  | .base .natural => True
  | .base (.user o) => o ∈ S.orders
  | .reversed o => Over S o

/-- What the name of an order starts with. -/
def head : NamedOrder → OrderHead ⊕ UserOrder
  | .base .natural => .inl .natural
  | .base (.user o) => .inr o
  | .reversed _ => .inl .reversed

/-- The arguments of the name of an order. -/
def arguments : NamedOrder → List Spelling
  | .base _ => []
  | .reversed o => [(typeName o).spelling]

theorem spelling_typeName (o : NamedOrder) :
    (typeName o).spelling =
      .word (OrderHead.lexicon.word UserOrder.path (head o)) (arguments o) := by
  rcases o with (_ | _) | _ <;> rfl

theorem Over.head {o : NamedOrder} (h : Over S o) :
    ∀ d ∈ (NamedOrder.head o).getRight?, d ∈ S.orders := by
  rcases o with (_ | o) | _
  · rintro d ⟨⟩
  · rintro d ⟨⟩; exact h
  · rintro d ⟨⟩

theorem legible (hS : S.Distinct) {o : NamedOrder} (h : Over S o) :
    (typeName o).spelling.Legible := by
  induction o with
  | base b =>
    rw [spelling_typeName]
    exact ⟨hS.orders.isWord h.head, trivial⟩
  | reversed o ih =>
    rw [spelling_typeName]
    exact ⟨hS.orders.isWord (Over.head h), ih h, trivial⟩

/-- Orders are told apart by their names. -/
theorem eq_of_spelling_eq (hS : S.Distinct) {a b : NamedOrder} (ha : Over S a) (hb : Over S b)
    (h : (typeName a).spelling = (typeName b).spelling) : a = b := by
  induction a generalizing b with
  | base a =>
    rw [spelling_typeName, spelling_typeName b] at h
    have hhead := hS.orders.word_inj (Over.head ha) (Over.head hb) (Spelling.word.inj h).1
    match a, b with
    | .natural, .base .natural => rfl
    | .user o, .base (.user o') => exact congrArg (Order.base ∘ OrderName.user) (Sum.inr.inj hhead)
    | .natural, .base (.user _) | .natural, .reversed _ => nomatch hhead
    | .user _, .base .natural | .user _, .reversed _ => nomatch hhead
  | reversed a ih =>
    rw [spelling_typeName, spelling_typeName b] at h
    obtain ⟨hword, harguments⟩ := Spelling.word.inj h
    have hhead := hS.orders.word_inj (Over.head ha) (Over.head hb) hword
    match b with
    | .reversed b => exact congrArg Order.reversed (ih ha hb (List.cons.inj harguments).1)
    | .base .natural | .base (.user _) => nomatch hhead

end NamedOrder

/-! ## Markers -/

namespace Marker

/-- The client declares what the marker names, if the library does not. -/
def Over (S : Expression.Scope) : Marker → Prop
  | .charClass _ => True
  | .charEq c | .maxCount c | .minCount c => c.Over S
  | .charRange lo hi => lo.Over S ∧ hi.Over S
  | .compare _ o c => o.Over S ∧ c.Over S
  | .inRange o lo hi => o.Over S ∧ lo.Over S ∧ hi.Over S
  | .user m => m ∈ S.markers

/-- What the name of a marker starts with. -/
def head : Marker → PredicateHead ⊕ UserMarker
  | .charClass c => .inl (.charClass c)
  | .charEq _ => .inl .charEq
  | .charRange _ _ => .inl .charRange
  | .compare r _ _ => .inl (.compare r)
  | .inRange _ _ _ => .inl .inRange
  | .maxCount _ => .inl .maxCount
  | .minCount _ => .inl .minCount
  | .user m => .inr m

/-- The arguments of the name of a marker. -/
def arguments : Marker → List Spelling
  | .charClass _ | .user _ => []
  | .charEq c | .maxCount c | .minCount c => [c.typeName.spelling]
  | .charRange lo hi => [lo.typeName.spelling, hi.typeName.spelling]
  | .compare _ o c => [o.typeName.spelling, c.typeName.spelling]
  | .inRange o lo hi => [o.typeName.spelling, lo.typeName.spelling, hi.typeName.spelling]

theorem spelling_typeName (m : Marker) :
    m.typeName.spelling =
      .word (PredicateHead.lexicon.word UserMarker.path m.head) m.arguments := by
  cases m <;> rfl

theorem Over.head {m : Marker} (h : m.Over S) : ∀ d ∈ m.head.getRight?, d ∈ S.markers := by
  cases m with
  | user m => rintro d ⟨⟩; exact h
  | _ => rintro d ⟨⟩

theorem legible (hS : S.Distinct) {m : Marker} (h : m.Over S) : m.typeName.spelling.Legible := by
  rw [spelling_typeName]
  refine ⟨hS.markers.isWord h.head, ?_⟩
  cases m with
  | charClass c => trivial
  | charEq c => exact ⟨c.legible hS h, trivial⟩
  | charRange lo hi => exact ⟨Constant.legible hS h.1, Constant.legible hS h.2, trivial⟩
  | compare r o c => exact ⟨NamedOrder.legible hS h.1, Constant.legible hS h.2, trivial⟩
  | inRange o lo hi =>
    exact ⟨NamedOrder.legible hS h.1, Constant.legible hS h.2.1, Constant.legible hS h.2.2, trivial⟩
  | maxCount c => exact ⟨Constant.legible hS h, trivial⟩
  | minCount c => exact ⟨Constant.legible hS h, trivial⟩
  | user m => trivial

/-- Markers are told apart by their names. -/
theorem eq_of_spelling_eq (hS : S.Distinct) {a b : Marker} (ha : a.Over S) (hb : b.Over S)
    (h : a.typeName.spelling = b.typeName.spelling) : a = b := by
  rw [spelling_typeName, spelling_typeName] at h
  obtain ⟨hword, harguments⟩ := Spelling.word.inj h
  have hhead : a.head = b.head := hS.markers.word_inj ha.head hb.head hword
  cases a with
  | charClass c =>
    cases b with
    | charClass d =>
      cases hhead
      rfl
    | _ => nomatch hhead
  | charEq c =>
    cases b with
    | charEq d =>
      rw [Constant.eq_of_spelling_eq hS ha hb (List.cons.inj harguments).1]
    | _ => nomatch hhead
  | charRange lo hi =>
    cases b with
    | charRange lo' hi' =>
      obtain ⟨hlo, hrest⟩ := List.cons.inj harguments
      rw [Constant.eq_of_spelling_eq hS ha.1 hb.1 hlo,
        Constant.eq_of_spelling_eq hS ha.2 hb.2 (List.cons.inj hrest).1]
    | _ => nomatch hhead
  | compare r o c =>
    cases b with
    | compare r' o' c' =>
      obtain ⟨ho, hrest⟩ := List.cons.inj harguments
      cases hhead
      rw [NamedOrder.eq_of_spelling_eq hS ha.1 hb.1 ho,
        Constant.eq_of_spelling_eq hS ha.2 hb.2 (List.cons.inj hrest).1]
    | _ => nomatch hhead
  | inRange o lo hi =>
    cases b with
    | inRange o' lo' hi' =>
      obtain ⟨ho, hrest⟩ := List.cons.inj harguments
      obtain ⟨hlo, hrest⟩ := List.cons.inj hrest
      rw [NamedOrder.eq_of_spelling_eq hS ha.1 hb.1 ho,
        Constant.eq_of_spelling_eq hS ha.2.1 hb.2.1 hlo,
        Constant.eq_of_spelling_eq hS ha.2.2 hb.2.2 (List.cons.inj hrest).1]
    | _ => nomatch hhead
  | maxCount c =>
    cases b with
    | maxCount d =>
      rw [Constant.eq_of_spelling_eq hS ha hb (List.cons.inj harguments).1]
    | _ => nomatch hhead
  | minCount c =>
    cases b with
    | minCount d =>
      rw [Constant.eq_of_spelling_eq hS ha hb (List.cons.inj harguments).1]
    | _ => nomatch hhead
  | user m =>
    cases b with
    | user n => exact congrArg user (Sum.inr.inj hhead)
    | _ => nomatch hhead

/-- The name of a marker starts with no combination. -/
theorem spelling_ne_combination (hS : S.Distinct) {m : Marker} (h : m.Over S) (c : Combination)
    (as : List Spelling) :
    m.typeName.spelling ≠
      .word (PredicateHead.lexicon.word UserMarker.path (.inl (.combination c))) as := by
  intro heq
  rw [spelling_typeName] at heq
  have hhead := hS.markers.word_inj h.head (by rintro d ⟨⟩) (Spelling.word.inj heq).1
  cases m with
  | _ => nomatch hhead

end Marker

end Refinement
