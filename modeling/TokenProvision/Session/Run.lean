import TokenProvision.Session.Basic

/-!
Runs of a session: every step that a host or the platform can take, the answer to it, and what a
sequence of steps leads to. A session is reachable if a run leads to it from a session that has
just been started.
-/
namespace TokenProvision.Session

inductive Step where
  | exchange (raw : Bytes) (room : Nat)
  | handle (raw : Bytes)
  | update (e : Event)
  | verify (msg signature : Bytes)
  | find (address : Token.Address) (chainId : UInt32)
  | get (slot : Nat)
  | reset
  | move (platform : Platform)

inductive Answer where
  | response (status : Status) (response : Bytes)
  | result (r : Except Refusal Output)
  | verdict (good : Bool)
  | noTrustedKey
  | found (token : Option (Nat × Token.Descriptor))
  | token (token : Option Token.Descriptor)
  | done

structure Turn where
  answer : Answer
  session : Session
  log : List Notice

def Outcome.turn (o : Outcome) : Turn := ⟨.result o.result, o.session, o.log⟩

def step (s : Session) : Step → Turn
  | .exchange raw room =>
    let r := s.exchange raw room
    ⟨.response r.status r.response, r.session, r.log⟩
  | .handle raw => (s.handle raw).turn
  | .update e => (s.update e).turn
  | .verify msg signature =>
    match s.trusted with
    | none => ⟨.noTrustedKey, s, []⟩
    | some key => ⟨.verdict (key.verify msg signature), s, []⟩
  | .find address chainId => ⟨.found (s.registry.find? address chainId), s, []⟩
  | .get slot => ⟨.token (s.registry.get? slot), s, []⟩
  | .reset => ⟨.done, s.reset, resetLog⟩
  | .move platform => ⟨.done, s.onPlatform platform, []⟩

def turns (s : Session) : List Step → List Turn
  | [] => []
  | step :: rest => s.step step :: turns (s.step step).session rest

def after (s : Session) : List Step → Session
  | [] => s
  | step :: rest => after (s.step step).session rest

@[simp] theorem turns_nil (s : Session) : s.turns [] = [] := rfl
@[simp] theorem turns_cons (s : Session) (step : Step) (rest : List Step) :
    s.turns (step :: rest) = s.step step :: (s.step step).session.turns rest := rfl
@[simp] theorem after_nil (s : Session) : s.after [] = s := rfl
@[simp] theorem after_cons (s : Session) (step : Step) (rest : List Step) :
    s.after (step :: rest) = (s.step step).session.after rest := rfl

theorem after_append (s : Session) (xs ys : List Step) :
    s.after (xs ++ ys) = (s.after xs).after ys := by
  induction xs generalizing s with
  | nil => rfl
  | cons step xs ih => exact ih (s.step step).session

theorem turns_append (s : Session) (xs ys : List Step) :
    s.turns (xs ++ ys) = s.turns xs ++ (s.after xs).turns ys := by
  induction xs generalizing s with
  | nil => rfl
  | cons step xs ih => simp [ih]

/-- A session that a run from the start can lead to. -/
def Reachable (s : Session) : Prop :=
  ∃ (platform : Platform) (steps : List Step), (start platform).after steps = s

theorem reachable_start (platform : Platform) : Reachable (start platform) := ⟨platform, [], rfl⟩

theorem Reachable.after {s : Session} (h : Reachable s) (steps : List Step) :
    Reachable (s.after steps) := by
  obtain ⟨platform, before, rfl⟩ := h
  exact ⟨platform, before ++ steps, after_append _ _ _⟩

end TokenProvision.Session
