import Refinement.Proofs.Locality.Basic

/-!
# Literals and texts, read locally

A literal takes a fixed number of characters, and a text ends at its closing quotation mark. Four
hexadecimal digits are told to be missing or to be something else by how many bytes there are, so
this takes a look at the sizes of characters.

* `literal_local`, `fourHexDigits_local`: what takes a fixed number of characters.
* `readText_local`, `skipText_local`: texts that are read and texts that are skipped.
-/

namespace Refinement.Json

open Scan (Local andThen mapTo)

/-! ## Literals and texts -/

theorem literal_cons (w : Char) (ws : List Char) :
    literal (w :: ws) = andThen next fun c r => if c = w then literal ws r else .error .malformed := by
  funext cs
  cases cs <;> rfl

theorem literal_local (w : Char) (ws : List Char) : Local 1 1 (literal (w :: ws)) := by
  induction ws generalizing w with
  | nil =>
    rw [literal_cons]
    exact next_local.follow fun c => .ite (fun _ => .pure _ _) fun _ => .fail _ _ _
  | cons v ws ih =>
    rw [literal_cons]
    exact next_local.follow fun c => .ite (fun _ => (ih v).weaken) fun _ => .fail _ _ _

/-- A digit in base sixteen takes up one byte. -/
theorem hexDigitValue?_of_utf8Size {c : Char} (h : c.utf8Size ≠ 1) :
    Text.hexDigitValue? c = none := by
  rw [ne_eq, Char.utf8Size_eq_one_iff] at h
  have hdigit : c.isDigit = false := by
    unfold Char.isDigit
    simp only [Bool.and_eq_false_iff, decide_eq_false_iff_not]
    exact .inr fun hle => h (UInt32.le_trans hle (by decide))
  unfold Text.hexDigitValue?
  rw [hdigit, if_neg Bool.false_ne_true, if_neg fun hf => h (UInt32.le_trans hf.2 (by decide)),
    if_neg fun hf => h (UInt32.le_trans hf.2 (by decide))]

theorem hexValue?_eq_none {ds : List Char} {c : Char} (hc : c ∈ ds)
    (h : Text.hexDigitValue? c = none) : Text.hexValue? ds = none := by
  unfold Text.hexValue?
  generalize 0 = m
  induction ds generalizing m with
  | nil => cases hc
  | cons d ds ih =>
    rw [List.foldlM_cons]
    rcases List.mem_cons.1 hc with rfl | hc
    · rw [h]
      rfl
    · cases Text.hexDigitValue? d with
      | none => rfl
      | some k => exact ih hc _

theorem foldl_utf8Size (cs : List Char) (n : Nat) :
    cs.foldl (fun n c => n + c.utf8Size) n = n + byteLength cs := by
  unfold byteLength
  induction cs generalizing n with
  | nil => rfl
  | cons c cs ih => rw [List.foldl_cons, List.foldl_cons, ih, ih (0 + _), Nat.zero_add, Nat.add_assoc]

theorem byteLength_append (cs ds : List Char) :
    byteLength (cs ++ ds) = byteLength cs + byteLength ds := by
  unfold byteLength
  rw [List.foldl_append, foldl_utf8Size]
  rfl

theorem byteLength_cons (c : Char) (cs : List Char) :
    byteLength (c :: cs) = c.utf8Size + byteLength cs := by
  rw [← List.singleton_append, byteLength_append]
  unfold byteLength
  rw [List.foldl_cons, Nat.zero_add]
  rfl

/-- A text that takes up more bytes than it has characters has one that is no digit. -/
theorem exists_of_length_lt {cs : List Char} (h : cs.length < byteLength cs) :
    ∃ c ∈ cs, Text.hexDigitValue? c = none := by
  induction cs with
  | nil => exact absurd h (Nat.lt_irrefl 0)
  | cons c cs ih =>
    by_cases hc : c.utf8Size = 1
    · rw [byteLength_cons, List.length_cons, hc] at h
      obtain ⟨d, hd, hn⟩ := ih (by omega)
      exact ⟨d, List.mem_cons_of_mem c hd, hn⟩
    · exact ⟨c, List.mem_cons_self, hexDigitValue?_of_utf8Size hc⟩

theorem length_of_fourHexDigits {cs r : List Char} {v : Nat} (h : fourHexDigits cs = .ok (v, r)) :
    r.length + 4 = cs.length := by
  unfold fourHexDigits at h
  split at h
  · split at h
    · cases h
      rfl
    · cases h
  · cases h

/-- Fewer than four characters are too few, or one of them is no digit. -/
theorem fourHexDigits_of_length_lt {cs : List Char} (h : cs.length < 4) :
    fourHexDigits cs = .error (if byteLength cs < 4 then .truncated else .malformed) := by
  unfold fourHexDigits
  split
  · simp at h
    omega
  · rfl

/-- What has a character that is no digit among the first four is malformed. -/
theorem fourHexDigits_append {cs : List Char} (h : cs.length < 4) (hb : ¬ byteLength cs < 4)
    (rest : List Char) : fourHexDigits (cs ++ rest) = .error .malformed := by
  have hlt : cs.length < byteLength cs := by omega
  obtain ⟨c, hc, hn⟩ := exists_of_length_lt hlt
  unfold fourHexDigits
  split
  · next a b d e r heq =>
    have hmem : c ∈ (cs ++ rest).take 4 := by
      rw [List.take_append, List.take_of_length_le (by omega)]
      exact List.mem_append_left _ hc
    rw [heq] at hmem
    have hnone : Text.hexValue? [a, b, d, e] = none := hexValue?_eq_none hmem hn
    rw [hnone]
  · rw [if_neg]
    rw [byteLength_append]
    omega

theorem fourHexDigits_local : Local 1 1 fourHexDigits where
  takes h := by
    have := length_of_fourHexDigits h
    omega
  grows cs rest _ := by
    by_cases h : cs.length < 4
    · rw [fourHexDigits_of_length_lt h]
      by_cases hb : byteLength cs < 4
      · rw [if_pos hb]
        refine .short fun v r hv => ?_
        have := length_of_fourHexDigits hv
        rw [List.length_append] at this
        omega
      · rw [if_neg hb, fourHexDigits_append h hb]
        exact .fault _
    · match cs with
      | a :: b :: c :: d :: r =>
        show Grows 1 rest (fourHexDigits (a :: b :: c :: d :: r))
          (fourHexDigits (a :: b :: c :: d :: (r ++ rest)))
        unfold fourHexDigits
        dsimp only
        cases Text.hexValue? [a, b, c, d] with
        | none => exact .fault _
        | some v => exact .read v r
      | [] | [_] | [_, _] | [_, _, _] => simp at h

/-- Reads the second half of a surrogate pair behind the first, which is `h`. -/
def secondHalf (h : Nat) : Scan Char :=
  andThen next fun c =>
    if c = '\\' then
      andThen next fun d =>
        if d = 'u' then
          andThen fourHexDigits fun m r =>
            if isLowSurrogate m then
              .ok (Char.ofNat (0x10000 + (h - 0xD800) * 0x400 + (m - 0xDC00)), r)
            else .error .malformed
        else fun _ => .error .malformed
    else fun _ => .error .malformed

theorem secondHalf_local (h : Nat) : Local 1 1 (secondHalf h) := by
  refine next_local.follow fun c => ?_
  split
  · refine (next_local.follow fun d => ?_).weaken
    split
    · exact (fourHexDigits_local.follow fun m => .ite (fun _ => .pure _ _) fun _ => .fail _ _ _).weaken
    · exact .fail _ _ _
  · exact .fail _ _ _

theorem readCodePoint_eq : readCodePoint = andThen fourHexDigits fun h =>
    if isLowSurrogate h then fun _ => .error .malformed
    else if isHighSurrogate h then secondHalf h
    else fun r => .ok (Char.ofNat h, r) := by
  funext cs
  unfold readCodePoint andThen
  congr 1
  funext x
  obtain ⟨h, r⟩ := x
  dsimp only
  split
  · rfl
  split
  · match r with
    | [] => rfl
    | [c] =>
      by_cases hc : c = '\\' <;> simp [secondHalf, andThen, next, hc, bind, Except.bind]
    | c :: d :: r =>
      by_cases hc : c = '\\' <;> by_cases hd : d = 'u' <;>
        simp [secondHalf, andThen, next, hc, hd, bind, Except.bind]
  · rfl

theorem readCodePoint_local : Local 1 1 readCodePoint := by
  rw [readCodePoint_eq]
  refine fourHexDigits_local.follow fun h => ?_
  split
  · exact .fail _ _ _
  split
  · exact (secondHalf_local h).weaken
  · exact .pure _ _

theorem readTextItem_eq : readTextItem = andThen next fun c =>
    if c = '"' then fun r => .ok (none, r)
    else if c = '\\' then andThen next fun d =>
      if d = 'u' then mapTo some readCodePoint
      else match escaped? d with
        | some e => fun r => .ok (some e, r)
        | none => fun _ => .error .malformed
    else if c.toNat < 32 then fun _ => .error .malformed
    else fun r => .ok (some c, r) := by
  funext cs
  unfold readTextItem
  split
  · rfl
  · rfl
  · rfl
  · rfl
  · next d r hu =>
    show _ = (if d = 'u' then _ else _ : Scan (Option Char)) r
    rw [if_neg hu]
    cases escaped? d <;> rfl
  · next c r hq hshort hu hlong =>
    have hb : c ≠ '\\' := by
      intro hc
      cases r with
      | nil => exact hshort hc rfl
      | cons d r => exact hlong d r hc rfl
    show _ = (if c = '"' then _ else _ : Scan (Option Char)) r
    rw [if_neg hq, if_neg hb]
    split <;> rfl

theorem readTextItem_local : Local 1 1 readTextItem := by
  rw [readTextItem_eq]
  refine next_local.follow fun c => ?_
  split
  · exact .pure _ _
  split
  · refine (next_local.follow fun d => ?_).weaken
    split
    · exact (readCodePoint_local.mapTo some).weaken
    · cases escaped? d with
      | some e => exact .pure _ _
      | none => exact .fail _ _ _
  split
  · exact .fail _ _ _
  · exact .pure _ _

theorem readTextItems_succ (fuel : Nat) : readTextItems (fuel + 1) =
    andThen readTextItem fun c? => match c? with
      | none => fun r => .ok ([], r)
      | some c => mapTo (c :: ·) (readTextItems fuel) := by
  funext cs
  show readTextItem cs >>= _ = readTextItem cs >>= _
  congr 1
  funext ⟨c?, r⟩
  cases c? <;> rfl

theorem readTextItems_local (fuel : Nat) : Local 1 1 (readTextItems fuel) := by
  induction fuel with
  | zero => exact .fail _ _ _
  | succ fuel ih =>
    rw [readTextItems_succ]
    refine readTextItem_local.follow fun c? => ?_
    cases c? with
    | none => exact .pure _ _
    | some c => exact (ih.mapTo _).weaken

theorem readTextItems_burns : Burns (fun (_ : Unit) cs => cs.length) (fun n _ => readTextItems n)
    fun s _ => andThen readTextItem fun c? => match c? with
      | none => fun r => .ok ([], r)
      | some c => mapTo (c :: ·) (s ()) where
  round n := funext fun _ => readTextItems_succ n
  shrinks h := Scan.andThen_congr fun c? r hr => by
    cases c? with
    | none => rfl
    | some c => exact Scan.mapTo_congr (h () r (readTextItem_local.takes hr)) _
  grows _ cs rest := by
    rw [List.length_append]
    omega

theorem readText_local : Local 1 1 readText :=
  readTextItems_burns.scan_local (fun n _ => readTextItems_local n) ()

theorem skipTextItem_eq : skipTextItem = andThen next fun c =>
    if c = '"' then fun r => .ok (false, r)
    else if c = '\\' then andThen next fun d =>
      if d = 'u' then mapTo (fun _ => true) fourHexDigits
      else if (escaped? d).isSome then fun r => .ok (true, r) else fun _ => .error .malformed
    else if c.toNat < 32 then fun _ => .error .malformed
    else fun r => .ok (true, r) := by
  funext cs
  unfold skipTextItem
  split
  · rfl
  · rfl
  · rfl
  · rfl
  · next d r hu =>
    show _ = (if d = 'u' then _ else _ : Scan Bool) r
    rw [if_neg hu]
    split <;> rfl
  · next c r hq hshort hu hlong =>
    have hb : c ≠ '\\' := by
      intro hc
      cases r with
      | nil => exact hshort hc rfl
      | cons d r => exact hlong d r hc rfl
    show _ = (if c = '"' then _ else _ : Scan Bool) r
    rw [if_neg hq, if_neg hb]
    split <;> rfl

theorem skipTextItem_local : Local 1 1 skipTextItem := by
  rw [skipTextItem_eq]
  refine next_local.follow fun c => ?_
  split
  · exact .pure _ _
  split
  · refine (next_local.follow fun d => ?_).weaken
    split
    · exact (fourHexDigits_local.mapTo _).weaken
    split
    · exact .pure _ _
    · exact .fail _ _ _
  split
  · exact .fail _ _ _
  · exact .pure _ _

theorem skipTextItems_succ (fuel : Nat) : skipTextItems (fuel + 1) =
    andThen skipTextItem fun more => if more then skipTextItems fuel else fun r => .ok ((), r) := by
  funext cs
  show skipTextItem cs >>= _ = skipTextItem cs >>= _
  congr 1
  funext ⟨more, r⟩
  cases more <;> rfl

theorem skipTextItems_local (fuel : Nat) : Local 1 1 (skipTextItems fuel) := by
  induction fuel with
  | zero => exact .fail _ _ _
  | succ fuel ih =>
    rw [skipTextItems_succ]
    refine skipTextItem_local.follow fun more => ?_
    split
    · exact ih.weaken
    · exact .pure _ _

theorem skipTextItems_burns : Burns (fun (_ : Unit) cs => cs.length) (fun n _ => skipTextItems n)
    fun s _ => andThen skipTextItem fun more => if more then s () else fun r => .ok ((), r) where
  round n := funext fun _ => skipTextItems_succ n
  shrinks h := Scan.andThen_congr fun more r hr => by
    split
    · exact h () r (skipTextItem_local.takes hr)
    · rfl
  grows _ cs rest := by
    rw [List.length_append]
    omega

/-- A text is skipped character by character. -/
theorem skipText_eq : skipText = andThen skipTextItem fun more =>
    if more then skipText else fun r => .ok ((), r) :=
  funext fun cs => skipTextItems_burns.unroll () cs

theorem skipText_local : Local 1 1 skipText :=
  skipTextItems_burns.scan_local (fun n _ => skipTextItems_local n) ()

end Refinement.Json
