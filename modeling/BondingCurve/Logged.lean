import BondingCurve.Error

/-!
# Computations that leave a log

A logged computation ends in a value or an error and leaves the events raised on the way. The only
way to end in a violation is `Logged.violate`, which reports it once as an `error` event; every
other event is a `debug` or `warn` note. A refusal comes from `Except Error` and leaves no event.
-/

namespace BondingCurve

inductive Level
  | debug
  | warn
  | error
deriving DecidableEq

def Level.name : Level → String
  | debug => "DEBUG"
  | warn => "WARN"
  | error => "ERROR"

structure Event where
  level : Level
  message : String
deriving DecidableEq

def Event.render (e : Event) : String := s!"{e.level.name} {e.message}"

def Violation.event (v : Violation) : Event := ⟨.error, s!"Bond invariant violated: {v.message}"⟩

structure Logged (α : Type) where
  events : List Event
  outcome : Except Error α
deriving DecidableEq

namespace Logged

variable {α β : Type}

/-- The events of the first computation come first; an error ends the run. -/
def bind (x : Logged α) (f : α → Logged β) : Logged β :=
  match x.outcome with
  | .ok a =>
    let y := f a
    ⟨x.events ++ y.events, y.outcome⟩
  | .error e => ⟨x.events, .error e⟩

instance : Monad Logged where
  pure a := ⟨[], .ok a⟩
  bind := bind

instance : MonadLift (Except Error) Logged := ⟨fun x => ⟨[], x⟩⟩

def debug (message : String) : Logged Unit := ⟨[⟨.debug, message⟩], .ok ()⟩

def warn (message : String) : Logged Unit := ⟨[⟨.warn, message⟩], .ok ()⟩

/-- Ends in a violation, reported where it is found. -/
def violate (v : Violation) : Logged α := ⟨[v.event], .error (.violation v)⟩

def violateIf (p : Prop) [Decidable p] (v : Violation) : Logged Unit :=
  if p then violate v else return ()

/-- Goes on from an error that is returned; the events so far stay. -/
def recover (x : Logged α) (f : Error → Logged α) : Logged α :=
  match x.outcome with
  | .ok _ => x
  | .error e =>
    if e = .unsettledRoot then x
    else
      let y := f e
      ⟨x.events ++ y.events, y.outcome⟩

@[simp]
theorem outcome_pure (a : α) : (pure a : Logged α).outcome = .ok a := rfl

@[simp]
theorem outcome_liftM (x : Except Error α) : (liftM x : Logged α).outcome = x := rfl

theorem bind_ok {x : Logged α} {a : α} (h : x.outcome = .ok a) (f : α → Logged β) :
    x >>= f = ⟨x.events ++ (f a).events, (f a).outcome⟩ := by
  change bind x f = _
  simp [bind, h]

theorem bind_error {x : Logged α} {e : Error} (h : x.outcome = .error e) (f : α → Logged β) :
    x >>= f = ⟨x.events, .error e⟩ := by
  change bind x f = _
  simp [bind, h]

theorem recover_ok {x : Logged α} {a : α} (h : x.outcome = .ok a) (f : Error → Logged α) : x.recover f = x := by
  simp [recover, h]

theorem recover_unsettledRoot {x : Logged α} (h : x.outcome = .error .unsettledRoot) (f : Error → Logged α) :
    x.recover f = x := by
  simp [recover, h]

theorem recover_error {x : Logged α} {e : Error} (h : x.outcome = .error e) (hReturned : e ≠ .unsettledRoot)
    (f : Error → Logged α) : x.recover f = ⟨x.events ++ (f e).events, (f e).outcome⟩ := by
  simp [recover, h, hReturned]

theorem outcome_violateIf_eq_ok_iff {p : Prop} [Decidable p] {v : Violation} {u : Unit} :
    (violateIf p v).outcome = .ok u ↔ ¬p := by
  unfold violateIf
  split
  · simp_all [violate]
  · simp_all [pure]

theorem outcome_bind (x : Logged α) (f : α → Logged β) :
    (x >>= f).outcome = x.outcome >>= fun a => (f a).outcome := by
  change (bind x f).outcome = _
  unfold bind
  cases x.outcome <;> rfl

theorem outcome_bind_eq_ok_iff {x : Logged α} {f : α → Logged β} {b : β} :
    (x >>= f).outcome = .ok b ↔ ∃ a, x.outcome = .ok a ∧ (f a).outcome = .ok b := by
  rw [outcome_bind, bind_eq_ok_iff]

instance : LawfulMonad Logged :=
  LawfulMonad.mk' Logged
    (fun x => by
      change bind x (fun a => ⟨[], .ok (id a)⟩) = x
      cases x with | mk events outcome => cases outcome <;> simp [bind])
    (fun a f => by
      change bind ⟨[], .ok a⟩ f = f a
      simp [bind])
    (fun x f g => by
      change bind (bind x f) g = bind x fun a => bind (f a) g
      unfold bind
      cases x.outcome with
      | error e => rfl
      | ok a =>
        cases h : (f a).outcome with
        | error e => simp [h]
        | ok b => simp [h])

end Logged

/-- The family with a tag; an unknown tag is a violation. -/
def Family.ofTag (tag : String) : Logged Family :=
  match ofTag? tag with
  | some f => return f
  | none => .violate (.unrecognizedFamily tag)

end BondingCurve
