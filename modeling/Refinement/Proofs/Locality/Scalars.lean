import Refinement.Proofs.Locality.Numbers

/-!
# Scalars, read locally

* `wrongKind_local`: what is found in the place of a value is itself read locally.
* `readScalar_local`, `readScalarName_local`: scalars as values, and as the names of members.
-/

namespace Refinement.Json

variable {α : Type} {j : Nat}

open Scan (Local andThen mapTo)

/-! ## What is found instead -/

/-- What is found at the front of a text, and what is behind it. -/
def foundThere : Scan Unexpected :=
  andThen next fun c =>
    if c = 'n' then mapTo (fun _ => .null) (literal ['u', 'l', 'l'])
    else if c = 't' then mapTo (fun _ => .bool true) (literal ['r', 'u', 'e'])
    else if c = 'f' then mapTo (fun _ => .bool false) (literal ['a', 'l', 's', 'e'])
    else if c = '-' then mapTo Number.unexpected (readNumber true)
    else if c = '"' then mapTo .text readText
    else if c = '[' then fun r => .ok (.sequence, r)
    else if c = '\x7b' then fun r => .ok (.map, r)
    else if c.isDigit then fun r => mapTo Number.unexpected (readNumber false) (c :: r)
    else fun _ => .error .malformed

theorem foundThere_local : Local 1 1 foundThere := by
  refine next_local.follow fun c => ?_
  split
  · exact ((literal_local _ _).mapTo _).weaken
  split
  · exact ((literal_local _ _).mapTo _).weaken
  split
  · exact ((literal_local _ _).mapTo _).weaken
  split
  · exact ((readNumber_local true).mapTo _).weaken
  split
  · exact (readText_local.mapTo _).weaken
  split
  · exact .pure _ _
  split
  · exact .pure _ _
  split
  · exact ((readNumber_local false).mapTo _).cons c
  · exact .fail _ _ _

theorem fst_mapTo {β : Type} (f : α → β) (s : Scan α) (cs : List Char) :
    Prod.fst <$> mapTo f s cs = (fun x => f x.1) <$> s cs := by
  unfold mapTo
  cases s cs <;> rfl

theorem found_eq (cs : List Char) : found cs = Prod.fst <$> foundThere cs := by
  unfold found
  split
  · rfl
  · exact (fst_mapTo (fun _ => Unexpected.null) (literal ['u', 'l', 'l']) _).symm
  · exact (fst_mapTo (fun _ => Unexpected.bool true) (literal ['r', 'u', 'e']) _).symm
  · exact (fst_mapTo (fun _ => Unexpected.bool false) (literal ['a', 'l', 's', 'e']) _).symm
  · exact (fst_mapTo _ _ _).symm
  · exact (fst_mapTo _ _ _).symm
  · rfl
  · rfl
  · next c r hn ht hf hm hq hb hc =>
    unfold foundThere
    rw [Scan.andThen_of_ok (next_cons c r), if_neg hn, if_neg ht,
      if_neg hf, if_neg hm, if_neg hq, if_neg hb, if_neg hc]
    split
    · exact (fst_mapTo _ _ _).symm
    · rfl

/-- What is found instead of a value is found in front of any rest. -/
theorem wrongKind_local (k : Nat) (expected : String) (c : Char) :
    Local (α := α) k j fun r => .error (wrongKind expected (c :: r)) where
  takes := nofun
  grows cs rest he := by
    have h : Grows 1 rest (foundThere (c :: cs)) (foundThere (c :: cs ++ rest)) :=
      foundThere_local.grows (c :: cs) he
    unfold wrongKind
    rw [found_eq, found_eq, ← List.cons_append]
    generalize foundThere (c :: cs) = x at h
    generalize foundThere (c :: cs ++ rest) = y at h
    cases h with
    | read v r => exact .fault _
    | fault e => exact .fault e
    | short h => exact .short nofun

/-! ## Numbers -/

theorem readAnyNumber_eq (expected : String) : readAnyNumber expected = andThen front fun c =>
    if c = '-' then readNumber true
    else if c.isDigit then fun r => readNumber false (c :: r)
    else fun r => .error (wrongKind expected (c :: r)) := by
  funext cs
  unfold readAnyNumber andThen front
  cases skipBlanks cs with
  | nil => rfl
  | cons c r =>
    show _ = (if c = '-' then _ else _ : Scan Number) r
    split
    · next h => cases h
    · next h =>
      cases h
      rfl
    · next hm h =>
      cases h
      rw [if_neg hm]
      split <;> rfl

theorem readAnyNumber_local (expected : String) : Local 1 1 (readAnyNumber expected) := by
  rw [readAnyNumber_eq]
  refine front_local.follow fun c => ?_
  split
  · exact (readNumber_local true).weaken
  split
  · exact (readNumber_local false).cons c
  · exact wrongKind_local _ _ _

theorem readInteger_eq (kind : IntKind) : readInteger kind =
    if kind.bits = 128 then andThen front fun c r => readWide kind (c :: r)
    else andThen (readAnyNumber kind.name) fun
      | .float x => fun _ => .error (.data (.invalidType (.float x) kind.name))
      | .integer m => match kind.ofInt? m with
        | some v => fun r => .ok (v, r)
        | none => fun _ => .error (.data (.invalidValue (.integer m) kind.name)) := by
  funext cs
  unfold readInteger
  split
  · unfold andThen front
    cases skipBlanks cs <;> rfl
  · unfold andThen
    cases readAnyNumber kind.name cs with
    | error e => rfl
    | ok x =>
      obtain ⟨x, r⟩ := x
      cases x with
      | float x => rfl
      | integer m =>
        dsimp only [bind, Except.bind]
        cases kind.ofInt? m <;> rfl

theorem readInteger_local (kind : IntKind) : Local 1 1 (readInteger kind) := by
  rw [readInteger_eq]
  split
  · exact front_local.follow fun c => (readWide_local kind).cons c
  · refine (readAnyNumber_local _).follow fun x => ?_
    cases x with
    | float x => exact .fail _ _ _
    | integer m =>
      dsimp only
      cases kind.ofInt? m with
      | some v => exact .pure _ _
      | none => exact .fail _ _ _

theorem readFloat_eq (f : FloatFormat) : readFloat f = mapTo
    (fun
      | .float x => x.convert f
      | .integer m => BinaryFloat.ofRatio (decide (m < 0)) m.natAbs 1) (readAnyNumber f.name) := by
  funext cs
  unfold readFloat mapTo
  cases readAnyNumber f.name cs with
  | error e => rfl
  | ok x =>
    obtain ⟨_ | _, r⟩ := x <;> rfl

theorem readFloat_local (f : FloatFormat) : Local 1 1 (readFloat f) := by
  rw [readFloat_eq]
  exact (readAnyNumber_local _).mapTo _

/-! ## Words -/

theorem readBool_eq : readBool = andThen front fun c =>
    if c = 't' then mapTo (fun _ => true) (literal ['r', 'u', 'e'])
    else if c = 'f' then mapTo (fun _ => false) (literal ['a', 'l', 's', 'e'])
    else fun r => .error (wrongKind "a boolean" (c :: r)) := by
  funext cs
  unfold readBool andThen front
  cases skipBlanks cs with
  | nil => rfl
  | cons c r =>
    show _ = (if c = 't' then _ else if c = 'f' then _ else _ : Scan Bool) r
    split
    · next h => cases h
    · next h =>
      cases h
      rfl
    · next h =>
      cases h
      rfl
    · next ht hf =>
      have ht : c ≠ 't' := fun h => ht r (by rw [h])
      have hf : c ≠ 'f' := fun h => hf r (by rw [h])
      rw [if_neg ht, if_neg hf]

theorem readBool_local : Local 1 1 readBool := by
  rw [readBool_eq]
  refine front_local.follow fun c => ?_
  split
  · exact ((literal_local _ _).mapTo _).weaken
  split
  · exact ((literal_local _ _).mapTo _).weaken
  · exact wrongKind_local _ _ _

theorem readNull_eq (expected : String) : readNull expected = andThen front fun c =>
    if c = 'n' then literal ['u', 'l', 'l']
    else fun r => .error (wrongKind expected (c :: r)) := by
  funext cs
  unfold readNull andThen front
  cases skipBlanks cs with
  | nil => rfl
  | cons c r =>
    show _ = (if c = 'n' then _ else _ : Scan Unit) r
    split
    · next h => cases h
    · next h =>
      cases h
      rfl
    · next hn => rw [if_neg fun h => hn r (by rw [h])]

theorem readNull_local (expected : String) : Local 1 1 (readNull expected) := by
  rw [readNull_eq]
  refine front_local.follow fun c => ?_
  split
  · exact (literal_local _ _).weaken
  · exact wrongKind_local _ _ _

theorem readString_eq (expected : String) : readString expected = andThen front fun c =>
    if c = '"' then readText else fun r => .error (wrongKind expected (c :: r)) := by
  funext cs
  unfold readString andThen front
  cases skipBlanks cs with
  | nil => rfl
  | cons c r =>
    show _ = (if c = '"' then _ else _ : Scan (List Char)) r
    split
    · next h => cases h
    · next h =>
      cases h
      rfl
    · next hq => rw [if_neg fun h => hq r (by rw [h])]

theorem readString_local (expected : String) : Local 1 1 (readString expected) := by
  rw [readString_eq]
  refine front_local.follow fun c => ?_
  split
  · exact readText_local.weaken
  · exact wrongKind_local _ _ _

theorem readChar_eq : readChar = andThen (readString "a character") fun
    | [c] => fun r => .ok (c, r)
    | s => fun _ => .error (.data (.invalidValue (.text s) "a character")) := by
  funext cs
  show readString _ cs >>= _ = readString _ cs >>= _
  congr 1
  funext ⟨s, r⟩
  match s with
  | [] | [_] | _ :: _ :: _ => rfl

theorem readChar_local : Local 1 1 readChar := by
  rw [readChar_eq]
  refine (readString_local _).follow fun s => ?_
  match s with
  | [c] => exact .pure _ _
  | [] => exact .fail _ _ _
  | _ :: _ :: _ => exact .fail _ _ _

theorem readKey_local (k : Key) : Local 1 1 (readKey k) := by
  cases k with
  | int kind => exact readInteger_local kind
  | bool => exact readBool_local
  | char => exact readChar_local
  | text => exact (readString_local "a string").mapTo String.ofList

theorem readScalar_local : ∀ s : Scalar, Local 1 1 (readScalar s)
  | .key k => readKey_local k
  | .float f => readFloat_local f
  | .count => readInteger_local .usize

/-! ## Names -/

theorem quote_local : Local 1 1 (want (· == '"')) := want_local (by decide)

/-- Goes on in front of what a number begins with. -/
def ifNumber (s : Scan α) : Scan α := inFront (fun c => c.isDigit || c = '-') s

theorem ifNumber_local {k : Nat} {s : Scan α} (h : Local k j s) : Local k j (ifNumber s) :=
  inFront_local (by decide) h

theorem readNumberName_eq (read : Scan α) : readNumberName read =
    andThen (want (· == '"')) fun _ => ifNumber (andThen read fun v =>
      mapTo (fun _ => v) (want (· == '"'))) := by
  funext cs
  obtain _ | ⟨c, cs⟩ := cs
  · rfl
  by_cases h : c = '"'
  · subst h
    obtain _ | ⟨d, r⟩ := cs
    · rfl
    rw [Scan.andThen_of_ok (show want (· == '"') ('"' :: d :: r) = .ok ('"', d :: r) from rfl)]
    simp only [readNumberName, ifNumber, inFront_cons]
    split
    · show read (d :: r) >>= _ = read (d :: r) >>= _
      congr 1
      funext ⟨v, r'⟩
      cases r' with
      | nil => rfl
      | cons e r' => by_cases he : e = '"' <;> simp [mapTo, want_cons, he, Functor.map, Except.map]
    · rfl
  · cases cs <;> simp [readNumberName, andThen, want_cons, h, bind, Except.bind]

theorem readNumberName_local {read : Scan α} (h : Local 1 1 read) :
    Local 1 1 (readNumberName read) := by
  rw [readNumberName_eq]
  refine quote_local.follow fun _ => ifNumber_local ?_
  exact (h.follow fun v => (quote_local.mapTo _).weaken).weaken

theorem readBoolName_eq : readBoolName = andThen (want (· == '"')) fun _ =>
    behind 't' (mapTo (fun _ => true) (literal ['r', 'u', 'e', '"']))
      (behind 'f' (mapTo (fun _ => false) (literal ['a', 'l', 's', 'e', '"']))
        (andThen readText fun s _ => .error (.data (.invalidType (.text s) "a boolean")))) := by
  funext cs
  obtain _ | ⟨c, cs⟩ := cs
  · rfl
  by_cases h : c = '"'
  · subst h
    obtain _ | ⟨d, r⟩ := cs
    · rfl
    rw [Scan.andThen_of_ok (show want (· == '"') ('"' :: d :: r) = .ok ('"', d :: r) from rfl)]
    by_cases ht : d = 't' <;> by_cases hf : d = 'f' <;>
      simp [readBoolName, behind_cons, mapTo, ht, hf, andThen]
  · cases cs <;> simp [readBoolName, andThen, want_cons, h, bind, Except.bind]

theorem readBoolName_local : Local 1 1 readBoolName := by
  rw [readBoolName_eq]
  refine quote_local.follow fun _ => behind_local (by decide) ?_ (behind_local (by decide) ?_ ?_)
  · exact ((literal_local _ _).mapTo _).weaken
  · exact ((literal_local _ _).mapTo _).weaken
  · exact (readText_local.follow fun s => .fail _ _ _).weaken

theorem readScalarName_local : ∀ s : Scalar, Local 1 1 (readScalarName s)
  | .key (.int kind) => readNumberName_local (readInteger_local kind)
  | .key .bool => readBoolName_local
  | .key .char => readChar_local
  | .key .text => readKey_local .text
  | .float f => readNumberName_local (readFloat_local f)
  | .count => readNumberName_local (readInteger_local .usize)

end Refinement.Json
