/-!
# Logs

A `Log ε α` is a result together with the entries that were made on the way to it, in their order.

* `Log.bind`: the entries of the first operation come before those of the second.
* `Log.andThen`: the same for operations that may fail.
-/

namespace Refinement

/-- A result together with the entries that were made on the way to it. -/
structure Log (ε α : Type) where
  /-- The entries in the order in which they were made. -/
  events : List ε
  /-- The result. -/
  result : α

namespace Log

variable {ε α β γ : Type}

/-- A result that was reached in silence. -/
protected def pure (a : α) : Log ε α := ⟨[], a⟩

/-- Goes on with the result; what is entered later comes later. -/
protected def bind (x : Log ε α) (f : α → Log ε β) : Log ε β :=
  let y := f x.result
  ⟨x.events ++ y.events, y.result⟩

/-- A result with one entry. -/
def report (e : ε) (a : α) : Log ε α := ⟨[e], a⟩

instance : Monad (Log ε) where
  pure := Log.pure
  bind := Log.bind

/-- Goes on with a result, unless there is a fault in its place. -/
def andThen {φ : Type} (x : Log ε (Except φ α)) (f : α → Log ε (Except φ β)) :
    Log ε (Except φ β) :=
  x >>= fun y => match y with
    | .ok a => f a
    | .error e => pure (.error e)

@[simp] theorem events_pure (a : α) : (pure a : Log ε α).events = [] := rfl

@[simp] theorem result_pure (a : α) : (pure a : Log ε α).result = a := rfl

@[simp] theorem events_bind (x : Log ε α) (f : α → Log ε β) :
    (x >>= f).events = x.events ++ (f x.result).events := rfl

@[simp] theorem result_bind (x : Log ε α) (f : α → Log ε β) :
    (x >>= f).result = (f x.result).result := rfl

@[simp] theorem events_map (f : α → β) (x : Log ε α) : (f <$> x).events = x.events :=
  List.append_nil x.events

@[simp] theorem result_map (f : α → β) (x : Log ε α) : (f <$> x).result = f x.result := rfl

@[simp] theorem events_report (e : ε) (a : α) : (report e a).events = [e] := rfl

@[simp] theorem result_report (e : ε) (a : α) : (report e a).result = a := rfl

@[simp] theorem pure_ok_andThen {φ : Type} (a : α) (f : α → Log ε (Except φ β)) :
    (pure (.ok a) : Log ε (Except φ α)).andThen f = f a := by
  cases h : f a
  simp [andThen, bind, Log.bind, pure, Log.pure, h]

@[simp] theorem pure_error_andThen {φ : Type} (e : φ) (f : α → Log ε (Except φ β)) :
    (pure (.error e) : Log ε (Except φ α)).andThen f = pure (.error e) := rfl

@[simp] theorem report_error_andThen {φ : Type} (x : ε) (e : φ) (f : α → Log ε (Except φ β)) :
    (report x (.error e) : Log ε (Except φ α)).andThen f = report x (.error e) := rfl

@[simp] theorem andThen_ok {φ : Type} (x : Log ε (Except φ α)) :
    x.andThen (fun a => pure (.ok a)) = x := by
  obtain ⟨l, _ | a⟩ := x
  · exact congrArg (Log.mk · _) (List.append_nil l)
  · exact congrArg (Log.mk · _) (List.append_nil l)

theorem andThen_assoc {φ : Type} (x : Log ε (Except φ α)) (f : α → Log ε (Except φ β))
    (g : β → Log ε (Except φ γ)) :
    (x.andThen f).andThen g = x.andThen fun a => (f a).andThen g := by
  obtain ⟨l, _ | a⟩ := x
  · exact congrArg (Log.mk · _) (List.append_nil _)
  · show (⟨l ++ (f a).events, (f a).result⟩ : Log ε (Except φ β)).andThen g =
      ⟨l ++ ((f a).andThen g).events, ((f a).andThen g).result⟩
    obtain ⟨l', _ | b⟩ := f a
    · exact congrArg (Log.mk · _) (List.append_assoc _ _ _)
    · exact congrArg (Log.mk · _) (List.append_assoc _ _ _)

theorem andThen_congr {φ : Type} {x : Log ε (Except φ α)} {f g : α → Log ε (Except φ β)}
    (h : ∀ a, x.result = .ok a → f a = g a) : x.andThen f = x.andThen g := by
  obtain ⟨l, _ | a⟩ := x
  · rfl
  · show (⟨l ++ (f a).events, (f a).result⟩ : Log ε (Except φ β)) = ⟨l ++ (g a).events, (g a).result⟩
    rw [h a rfl]

theorem ext {x y : Log ε α} (h : x.events = y.events) (h' : x.result = y.result) : x = y := by
  cases x; cases y; simp_all

instance : LawfulMonad (Log ε) :=
  LawfulMonad.mk' (Log ε)
    (fun x => ext (by simp [Functor.map]; exact List.append_nil _) rfl)
    (fun _ _ => ext (List.nil_append _) rfl)
    (fun _ _ _ => ext (by simp) rfl)

end Log

end Refinement
