import Refinement.Json.Reader

/-!
# Local readers

A reader is local if what stands behind the text that it takes does not matter to it. On a longer
text it comes to the same value or the same fault; only where the text was too short for it may it
go on, and then it takes some of what was added. What is added has to be something that ends a
value, because a number is read as far as it goes.

Locality goes through sequences of steps. It comes with two numbers: how many characters are taken
at least, and how many of what was added if the text was too short.

* `Ends`: what may stand behind a value.
* `Grows`: the outcomes on a text and on a longer one.
* `Scan.Local`, `Reader.Local`: local scans and readers, closed under their combinators.
* `Burns`: loops that run on fuel, and always have enough of it.
* `next`, `front`, `peek`: the first character, and the first behind blanks.
-/

namespace Refinement.Json

variable {ε α β : Type}

/-- The characters that end a value. -/
def enders : List Char := [' ', '\n', '\t', '\r', ',', ']', '\x7d']

theorem not_of_mem_enders {p : Char → Bool} (h : enders.all (fun c => !p c) = true) {c : Char}
    (hc : c ∈ enders) : p c = false := by
  simpa using List.all_eq_true.1 h c hc

/-- What may stand behind a value: nothing, or something that begins with a blank, a comma or a
closing bracket or brace. -/
def Ends (rest : List Char) : Prop := ∀ c ∈ rest.head?, c ∈ enders

/-- The outcomes on a text and on the same text with `rest` behind it. If the first text is too
short, then the second is either faulty, or at least `j` characters of the rest are taken. -/
inductive Grows (j : Nat) (rest : List Char) :
    Except Fault (α × List Char) → Except Fault (α × List Char) → Prop where
  | read (v : α) (r : List Char) : Grows j rest (.ok (v, r)) (.ok (v, r ++ rest))
  | fault (e : Fault) : Grows j rest (.error e) (.error e)
  | short {y : Except Fault (α × List Char)} :
    (∀ v r, y = .ok (v, r) → r.length + j ≤ rest.length) → Grows j rest (.error .truncated) y

/-- Scans that take at least `k` characters, and to which what stands behind matters only if the
text is too short; then they take `j` more of it. -/
structure Scan.Local (k j : Nat) (s : Scan α) : Prop where
  /-- At least `k` characters are taken. -/
  takes : ∀ {cs v r}, s cs = .ok (v, r) → r.length + k ≤ cs.length
  /-- The outcomes on a text and on a longer one. -/
  grows : ∀ cs {rest}, Ends rest → Grows j rest (s cs) (s (cs ++ rest))

/-- Readers of the same kind, which log the same on the longer text unless the first is too short. -/
structure Reader.Local (k j : Nat) (read : Reader ε α) : Prop where
  /-- At least `k` characters are taken. -/
  takes : ∀ {cs v r}, (read cs).result = .ok (v, r) → r.length + k ≤ cs.length
  /-- The outcomes on a text and on a longer one. -/
  grows : ∀ cs {rest}, Ends rest → Grows j rest (read cs).result (read (cs ++ rest)).result
  /-- What is logged. -/
  logs : ∀ cs {rest}, Ends rest → (read cs).result ≠ .error .truncated →
    (read (cs ++ rest)).events = (read cs).events

variable {i i' j j' k k' : Nat} {rest : List Char}

/-- The first step of two that come to a result comes to one. -/
theorem exists_of_bind_ok {x : Except Fault α} {f : α → Except Fault β} {b : β}
    (h : x >>= f = .ok b) : ∃ a, x = .ok a ∧ f a = .ok b := by
  cases x with
  | error e => cases h
  | ok a => exact ⟨a, rfl, h⟩

/-! ## Outcomes -/

namespace Ends

theorem nil : Ends [] := nofun

theorem ne {c d : Char} {r : List Char} (h : Ends (c :: r)) (hd : d ∉ enders) : c ≠ d := by
  rintro rfl
  exact hd (h c rfl)

end Ends

namespace Grows

variable {x y : Except Fault (α × List Char)}

theorem mono (h : Grows j rest x y) (hj : j' ≤ j) : Grows j' rest x y := by
  cases h with
  | read v r => exact .read v r
  | fault e => exact .fault e
  | short h =>
    refine .short fun v r hy => ?_
    have := h v r hy
    omega

/-- What follows grows as it does by itself. If the first text is too short, what follows on the
second has to take what is missing. -/
theorem bind {f : α → List Char → Except Fault (β × List Char)} (h : Grows i rest x y)
    (hread : ∀ v r, Grows j rest (f v r) (f v (r ++ rest)))
    (htakes : ∀ v r w r', f v r = .ok (w, r') → r'.length + j ≤ r.length + i) :
    Grows j rest (x >>= fun a => f a.1 a.2) (y >>= fun a => f a.1 a.2) := by
  cases h with
  | read v r => exact hread v r
  | fault e => exact .fault e
  | short h =>
    refine .short fun w r' hw => ?_
    obtain ⟨⟨v, r⟩, hy, hf⟩ := exists_of_bind_ok hw
    have := h v r hy
    have := htakes v r w r' hf
    omega

/-- A value that is read in front of a rest is read on its own. -/
theorem ok_of_append {v : α} {r : List Char} (h : Grows 1 rest x (.ok (v, r ++ rest))) :
    x = .ok (v, r) := by
  generalize hy : (Except.ok (v, r ++ rest) : Except Fault (α × List Char)) = y at h
  cases h with
  | read w r' =>
    obtain ⟨rfl, hr⟩ := Prod.mk.inj (Except.ok.inj hy)
    rw [List.append_cancel_right hr]
  | fault e => cases hy
  | short h =>
    have := h v (r ++ rest) hy.symm
    rw [List.length_append] at this
    omega

theorem of_ok {v : α} {r : List Char} (h : Grows j rest (.ok (v, r)) y) : y = .ok (v, r ++ rest) := by
  cases h
  rfl

theorem of_error {e : Fault} (h : Grows j rest (.error e) y) (he : e ≠ .truncated) : y = .error e := by
  cases h with
  | fault => rfl
  | short => exact absurd rfl he

end Grows

/-! ## Scans -/

/-- One scan after another. -/
def Scan.andThen (s : Scan α) (f : α → Scan β) : Scan β := fun cs => s cs >>= fun x => f x.1 x.2

/-- The value that a scan comes to, changed by a function. -/
def Scan.mapTo (f : α → β) (s : Scan α) : Scan β := fun cs => (fun x => (f x.1, x.2)) <$> s cs

namespace Scan

variable {s s' : Scan α} {cs : List Char}

theorem andThen_congr {f g : α → Scan β} (h : ∀ v r, s cs = .ok (v, r) → f v r = g v r) :
    s.andThen f cs = s.andThen g cs := by
  unfold andThen
  cases hs : s cs with
  | error e => rfl
  | ok x => exact h x.1 x.2 hs

theorem andThen_of_ok {r : List Char} {v : α} (h : s cs = .ok (v, r)) (f : α → Scan β) :
    s.andThen f cs = f v r := by
  unfold andThen
  rw [h]
  rfl

theorem andThen_of_error {e : Fault} (h : s cs = .error e) (f : α → Scan β) :
    s.andThen f cs = .error e := by
  unfold andThen
  rw [h]
  rfl

theorem andThen_assoc {γ : Type} (s : Scan α) (f : α → Scan β) (g : β → Scan γ) :
    (s.andThen f).andThen g = s.andThen fun v => (f v).andThen g := by
  funext cs
  unfold andThen
  cases s cs <;> rfl

theorem mapTo_congr (h : s cs = s' cs) (f : α → β) : s.mapTo f cs = s'.mapTo f cs := by
  unfold mapTo
  rw [h]

theorem mapTo_of_ok {r : List Char} {v : α} (h : s cs = .ok (v, r)) (f : α → β) :
    s.mapTo f cs = .ok (f v, r) := by
  unfold mapTo
  rw [h]
  rfl

theorem exists_of_mapTo_ok {f : α → β} {b : β} {r : List Char} (h : s.mapTo f cs = .ok (b, r)) :
    ∃ v, s cs = .ok (v, r) ∧ f v = b := by
  unfold mapTo at h
  cases hs : s cs with
  | error e =>
    rw [hs] at h
    cases h
  | ok x =>
    rw [hs] at h
    cases h
    exact ⟨x.1, rfl, rfl⟩

namespace Local

theorem mono (h : Scan.Local k j s) (hk : k' ≤ k) (hj : j' ≤ j) : Scan.Local k' j' s where
  takes hs := by
    have := h.takes hs
    omega
  grows cs _ he := (h.grows cs he).mono hj

/-- What is known to take a character need not. -/
theorem weaken (h : Scan.Local 1 1 s) : Scan.Local 0 1 s := h.mono (Nat.zero_le 1) (Nat.le_refl 1)

theorem pure (j : Nat) (v : α) : Scan.Local 0 j fun r => .ok (v, r) where
  takes := by
    rintro cs w r ⟨⟩
    exact Nat.le_refl _
  grows cs _ _ := .read v cs

theorem fail (k j : Nat) (e : Fault) : Scan.Local (α := α) k j fun _ => .error e where
  takes := nofun
  grows _ _ _ := .fault e

theorem ite {p : Prop} [Decidable p] (h : p → Scan.Local k j s) (h' : ¬ p → Scan.Local k j s') :
    Scan.Local k j fun cs => if p then s cs else s' cs := by
  split
  · exact h ‹p›
  · exact h' ‹¬ p›

theorem andThen (h : Scan.Local i i' s) {f : α → Scan β} (hf : ∀ v, Scan.Local k j (f v))
    (hj : j ≤ i' + k) : Scan.Local (i + k) j (s.andThen f) where
  takes {cs w r'} hs := by
    obtain ⟨⟨v, r⟩, hv, hr⟩ := exists_of_bind_ok hs
    have hfirst := h.takes hv
    have hsecond : r'.length + k ≤ r.length := (hf v).takes hr
    omega
  grows cs rest he := by
    refine (h.grows cs he).bind (fun v r => (hf v).grows r he) fun v r w r' hw => ?_
    have := (hf v).takes hw
    omega

/-- What follows a step that takes a character need not take one. -/
theorem follow (h : Scan.Local 1 1 s) {f : α → Scan β} (hf : ∀ v, Scan.Local 0 1 (f v)) :
    Scan.Local 1 1 (s.andThen f) :=
  h.andThen hf (Nat.le_refl 1)

/-- Neither of two steps need take a character. -/
theorem chain (h : Scan.Local 0 1 s) {f : α → Scan β} (hf : ∀ v, Scan.Local 0 1 (f v)) :
    Scan.Local 0 1 (s.andThen f) :=
  h.andThen hf (Nat.le_refl 1)

theorem mapTo (h : Scan.Local k j s) (f : α → β) : Scan.Local k j (s.mapTo f) :=
  h.andThen (f := fun v r => .ok (f v, r)) (fun v => .pure j (f v)) (Nat.le_refl j)

/-- A scan whose first character has been looked at. -/
theorem cons (h : Scan.Local 1 j s) (c : Char) : Scan.Local 0 j fun r => s (c :: r) where
  takes hs := Nat.le_of_succ_le_succ (h.takes hs)
  grows cs _ he := h.grows (c :: cs) he

end Local

end Scan

/-! ## First characters -/

/-- Reads the first character. -/
def next : Scan Char
  | [] => .error .truncated
  | c :: r => .ok (c, r)

/-- Reads the first character behind blanks. -/
def front : Scan Char := fun cs => next (skipBlanks cs)

/-- Looks at the first character behind blanks, and leaves it where it is. -/
def peek : Scan Char := fun cs =>
  match skipBlanks cs with
  | [] => .error .truncated
  | c :: r => .ok (c, c :: r)

theorem next_cons (c : Char) (r : List Char) : next (c :: r) = .ok (c, r) := rfl

theorem next_local : Scan.Local 1 1 next where
  takes {cs c r} h := by
    cases cs with
    | nil => cases h
    | cons d r' =>
      cases h
      exact Nat.le_refl _
  grows cs rest _ := by
    cases cs with
    | cons c r => exact .read c r
    | nil =>
      refine .short fun c r h => ?_
      cases rest with
      | nil => cases h
      | cons d r' =>
        cases h
        exact Nat.le_refl _

theorem skipBlanks_append_of_cons {cs r : List Char} {c : Char} (h : skipBlanks cs = c :: r)
    (rest : List Char) : skipBlanks (cs ++ rest) = c :: (r ++ rest) := by
  unfold skipBlanks at h ⊢
  rw [List.dropWhile_append, h]
  rfl

theorem skipBlanks_append_of_nil {cs : List Char} (h : skipBlanks cs = []) (rest : List Char) :
    skipBlanks (cs ++ rest) = skipBlanks rest := by
  unfold skipBlanks at h ⊢
  rw [List.dropWhile_append, h]
  rfl

theorem length_skipBlanks_le (cs : List Char) : (skipBlanks cs).length ≤ cs.length :=
  (List.dropWhile_sublist _).length_le

theorem isBlank_of_skipBlanks {cs r : List Char} {c : Char} (h : skipBlanks cs = c :: r) :
    isBlank c = false := by
  have hhead := List.head?_dropWhile_not isBlank cs
  unfold skipBlanks at h
  rwa [h] at hhead

theorem front_of_cons {cs r : List Char} {c : Char} (h : skipBlanks cs = c :: r) :
    front cs = .ok (c, r) := by
  unfold front
  rw [h, next_cons]

theorem front_of_nil {cs : List Char} (h : skipBlanks cs = []) : front cs = .error .truncated := by
  unfold front
  rw [h]
  rfl

theorem front_local : Scan.Local 1 1 front where
  takes {cs c r} h := by
    have hle := length_skipBlanks_le cs
    have := next_local.takes h
    omega
  grows cs rest _ := by
    cases h : skipBlanks cs with
    | cons c r =>
      rw [front_of_cons h, front_of_cons (skipBlanks_append_of_cons h rest)]
      exact .read c r
    | nil =>
      rw [front_of_nil h]
      refine .short fun c r hr => ?_
      have hle := length_skipBlanks_le rest
      unfold front at hr
      rw [skipBlanks_append_of_nil h] at hr
      have := next_local.takes hr
      omega

theorem peek_of_cons {cs r : List Char} {c : Char} (h : skipBlanks cs = c :: r) :
    peek cs = .ok (c, c :: r) := by
  unfold peek
  rw [h]

theorem peek_of_nil {cs : List Char} (h : skipBlanks cs = []) : peek cs = .error .truncated := by
  unfold peek
  rw [h]

theorem length_of_peek {cs r : List Char} {c : Char} (h : peek cs = .ok (c, r)) :
    r.length ≤ cs.length := by
  have hle := length_skipBlanks_le cs
  cases hcs : skipBlanks cs with
  | nil =>
    rw [peek_of_nil hcs] at h
    cases h
  | cons d r' =>
    rw [peek_of_cons hcs] at h
    cases h
    rwa [hcs] at hle

theorem peek_local : Scan.Local 0 0 peek where
  takes := length_of_peek
  grows cs rest _ := by
    cases h : skipBlanks cs with
    | cons c r =>
      rw [peek_of_cons h, peek_of_cons (skipBlanks_append_of_cons h rest)]
      exact .read c (c :: r)
    | nil =>
      rw [peek_of_nil h]
      refine .short fun c r hr => length_of_peek (c := c) ?_
      unfold peek at hr ⊢
      rwa [skipBlanks_append_of_nil h] at hr

/-! ## Readers -/

namespace Reader

variable {x : Log ε (Except Fault (α × List Char))}
  {f g : α → List Char → Log ε (Except Fault (β × List Char))}

theorem result_andThen :
    (Reader.andThen x f).result = x.result >>= fun a => (f a.1 a.2).result := by
  obtain ⟨l, _ | a⟩ := x
  · rfl
  · rfl

theorem events_andThen_of_ok {v : α} {r : List Char} (h : x.result = .ok (v, r)) :
    (Reader.andThen x f).events = x.events ++ (f v r).events := by
  obtain ⟨l, x⟩ := x
  cases (h : x = .ok (v, r))
  rfl

theorem events_andThen_of_error {e : Fault} (h : x.result = .error e) :
    (Reader.andThen x f).events = x.events := by
  obtain ⟨l, x⟩ := x
  cases (h : x = .error e)
  exact List.append_nil l

theorem andThen_congr (h : ∀ v r, x.result = .ok (v, r) → f v r = g v r) :
    Reader.andThen x f = Reader.andThen x g :=
  Log.andThen_congr fun y => h y.1 y.2

namespace Local

variable {read read' : Reader ε α}

theorem mono (h : Reader.Local k j read) (hk : k' ≤ k) (hj : j' ≤ j) :
    Reader.Local k' j' read where
  takes hs := by
    have := h.takes hs
    omega
  grows cs _ he := (h.grows cs he).mono hj
  logs := h.logs

theorem weaken (h : Reader.Local 1 1 read) : Reader.Local 0 1 read :=
  h.mono (Nat.zero_le 1) (Nat.le_refl 1)

theorem ofScan {s : Scan α} (h : Scan.Local k j s) :
    Reader.Local (ε := ε) k j (Reader.ofScan s) where
  takes := h.takes
  grows := h.grows
  logs _ _ _ _ := rfl

theorem pure (j : Nat) (v : α) : Reader.Local (ε := ε) 0 j fun r => Pure.pure (.ok (v, r)) :=
  .ofScan (.pure j v)

theorem fail (k j : Nat) (e : Fault) :
    Reader.Local (ε := ε) (α := α) k j fun _ => Reader.fail e :=
  .ofScan (.fail k j e)

theorem ite {p : Prop} [Decidable p] (h : Reader.Local k j read) (h' : Reader.Local k j read') :
    Reader.Local k j (if p then read else read') := by
  split
  · exact h
  · exact h'

theorem andThen (h : Reader.Local i i' read) {f : α → Reader ε β}
    (hf : ∀ v, Reader.Local k j (f v)) (hj : j ≤ i' + k) :
    Reader.Local (i + k) j fun cs => Reader.andThen (read cs) f where
  takes {cs w r'} hs := by
    rw [Reader.result_andThen] at hs
    obtain ⟨⟨v, r⟩, hv, hr⟩ := exists_of_bind_ok hs
    have hfirst := h.takes hv
    have hsecond : r'.length + k ≤ r.length := (hf v).takes hr
    omega
  grows cs rest he := by
    rw [Reader.result_andThen, Reader.result_andThen]
    refine (h.grows cs he).bind (f := fun v r => (f v r).result)
      (fun v r => (hf v).grows r he) fun v r w r' hw => ?_
    have := (hf v).takes hw
    omega
  logs cs rest he hshort := by
    rw [Reader.result_andThen] at hshort
    have hgrows := h.grows cs he
    have hlogs := h.logs cs he
    cases hx : (read cs).result with
    | error e =>
      rw [hx] at hshort hgrows hlogs
      have hne : e ≠ .truncated := fun h => hshort (congrArg Except.error h)
      rw [Reader.events_andThen_of_error hx, Reader.events_andThen_of_error (hgrows.of_error hne)]
      exact hlogs fun h => hne (Except.error.inj h)
    | ok x =>
      obtain ⟨v, r⟩ := x
      rw [hx] at hshort hgrows hlogs
      rw [Reader.events_andThen_of_ok hx, Reader.events_andThen_of_ok hgrows.of_ok, hlogs nofun,
        (hf v).logs r he hshort]

/-- What follows a step that takes a character need not take one. -/
theorem follow (h : Reader.Local 1 1 read) {f : α → Reader ε β}
    (hf : ∀ v, Reader.Local 0 1 (f v)) : Reader.Local 1 1 fun cs => Reader.andThen (read cs) f :=
  h.andThen hf (Nat.le_refl 1)

/-- What does not look at the text does not depend on what stands behind it. -/
theorem leaving (j : Nat) (x : Log ε (Except Fault α)) :
    Reader.Local 0 j fun r => Reader.leaving r x where
  takes {cs v r} h := by
    obtain ⟨l, _ | w⟩ := x
    · cases h
    · cases h
      exact Nat.le_refl _
  grows cs rest _ := by
    obtain ⟨l, e | w⟩ := x
    · exact .fault e
    · exact .read w cs
  logs _ _ _ _ := by
    obtain ⟨l, _ | w⟩ := x
    · rfl
    · rfl

theorem mapTo (h : Reader.Local k j read) (f : α → β) :
    Reader.Local k j fun cs => Reader.mapTo f (read cs) :=
  h.andThen (fun v => .pure j (f v)) (Nat.le_refl j)

end Local

end Reader

/-! ## Loops -/

/-- A loop `L` on fuel, each round of which is `F` of those that follow. They start from less, by a
measure of where they start. -/
structure Burns {σ γ : Type} (μ : σ → List Char → Nat) (L : Nat → σ → List Char → γ)
    (F : (σ → List Char → γ) → σ → List Char → γ) : Prop where
  /-- A round. -/
  round : ∀ n, L (n + 1) = F (L n)
  /-- What follows starts from less. -/
  shrinks : ∀ {n s a cs}, (∀ b r, μ b r < μ a cs → L n b r = s b r) → F (L n) a cs = F s a cs
  /-- Longer texts measure no less. -/
  grows : ∀ a cs rest, μ a cs ≤ μ a (cs ++ rest)

namespace Burns

variable {σ γ : Type} {μ : σ → List Char → Nat} {L : Nat → σ → List Char → γ}
  {F : (σ → List Char → γ) → σ → List Char → γ}

/-- More fuel than is needed makes no difference. -/
theorem eq_of_lt (h : Burns μ L F) {a : σ} {cs : List Char} {n m : Nat} (hn : μ a cs < n)
    (hm : μ a cs < m) : L n a cs = L m a cs := by
  induction n generalizing m a cs with
  | zero => omega
  | succ n ih =>
    obtain ⟨m, rfl⟩ : ∃ k, m = k + 1 := ⟨m - 1, by omega⟩
    rw [h.round, h.round]
    exact h.shrinks fun b r hr => ih (by omega) (by omega)

/-- With enough fuel for every start, the loop is its own first round. -/
theorem unroll (h : Burns μ L F) (a : σ) (cs : List Char) :
    L (μ a cs + 1) a cs = F (fun b r => L (μ b r + 1) b r) a cs := by
  rw [h.round]
  exact h.shrinks fun b r hr => h.eq_of_lt hr (Nat.lt_succ_self _)

/-- A loop of scans that are local whatever the fuel is local. -/
theorem scan_local {L : Nat → σ → Scan α} {F : (σ → Scan α) → σ → Scan α} (h : Burns μ L F)
    (hL : ∀ n a, Scan.Local k j (L n a)) (a : σ) :
    Scan.Local k j fun cs => L (μ a cs + 1) a cs where
  takes hs := (hL _ a).takes hs
  grows cs rest he := by
    have hle := h.grows a cs rest
    rw [h.eq_of_lt (Nat.lt_succ_self _) (Nat.lt_succ_of_le hle)]
    exact (hL _ a).grows cs he

/-- The same of readers. -/
theorem reader_local {L : Nat → σ → Reader ε α} {F : (σ → Reader ε α) → σ → Reader ε α}
    (h : Burns μ L F) (hL : ∀ n a, Reader.Local k j (L n a)) (a : σ) :
    Reader.Local k j fun cs => L (μ a cs + 1) a cs where
  takes hs := (hL _ a).takes hs
  grows cs rest he := by
    have hle := h.grows a cs rest
    rw [h.eq_of_lt (Nat.lt_succ_self _) (Nat.lt_succ_of_le hle)]
    exact (hL _ a).grows cs he
  logs cs rest he := by
    have hle := h.grows a cs rest
    rw [h.eq_of_lt (Nat.lt_succ_self _) (Nat.lt_succ_of_le hle)]
    exact (hL _ a).logs cs he

end Burns

end Refinement.Json
