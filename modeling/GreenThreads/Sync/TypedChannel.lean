import GreenThreads.Sync.ChannelMap

/-!
# GreenThreads — `FiberChannelOf` (`internal/sync/typed_channel.go`)

`FiberChannelOf[T]` is a `FiberChannel` of `interface{}` values. A value is converted on its way
in and asserted to be a `T` on its way out; both happen outside the inner channel's critical
sections. The assertion `v.(T)` of a nil interface fails for every `T`, so where `T` is an
interface type a nil that was sent does not come out again: `Receive` turns it into an error and
`TryReceive` into `false`, after it has left the channel.

* `GoType`, `toAny`, `assert` — types and the two conversions;
* `FiberChannelOf.step` — the inner channel under the wrapper's calls, and `resultOf` — what
  these return;
* `transparent` — without nil interface values the wrapper is a `FiberChannel` of `T`.
-/

namespace GreenThreads.Sync

/-! ## Types and values -/

/-- The types of a program that are not interfaces, with their values, their zero values and
their names as `%T` prints them. -/
structure GoTypes where
  Ty : Type
  decEq : DecidableEq Ty
  Val : Ty → Type
  zero (t : Ty) : Val t
  name : Ty → String

namespace GoTypes

variable (U : GoTypes)

instance : DecidableEq U.Ty := U.decEq

/-- A value together with its dynamic type. -/
abbrev Dyn := (t : U.Ty) × U.Val t

/-- `interface{}`; `none` is nil. -/
abbrev Any := Option U.Dyn

/-- `%T` of a value in an interface. -/
def typeName : U.Any → String
  | none => "<nil>"
  | some d => U.name d.1

end GoTypes

/-- A type argument: a type that is not an interface, or an interface type by the types that
implement it. -/
inductive GoType (U : GoTypes) where
  | concrete (t : U.Ty)
  | interface (implements : U.Ty → Bool)

namespace GoType

variable {U : GoTypes}

/-- The values of a type; `none` is a nil interface value. -/
def Val : GoType U → Type
  | concrete t => U.Val t
  | interface implements => Option { d : U.Dyn // implements d.1 = true }

/-- The conversion to `interface{}`, which keeps the dynamic type. -/
def toAny : (T : GoType U) → T.Val → U.Any
  | concrete t, v => some ⟨t, v⟩
  | interface _, v => Option.map Subtype.val v

/-- `v.(T)` with two results; `none` is a failed assertion. -/
def assert : (T : GoType U) → U.Any → Option T.Val
  | _, none => none
  | concrete t, some ⟨t', v⟩ => if h : t' = t then some (h ▸ v) else none
  | interface implements, some d => if h : implements d.1 = true then some (some ⟨d, h⟩) else none

/-- `var zero T`. -/
def zero : (T : GoType U) → T.Val
  | concrete t => U.zero t
  | interface _ => none

/-- A value is a nil interface value. -/
def isNil (T : GoType U) (v : T.Val) : Bool := (T.toAny v).isNone

/-- What goes in comes out, unless it is nil. -/
theorem assert_toAny (T : GoType U) {v : T.Val} (h : T.isNil v = false) :
    T.assert (T.toAny v) = some v := by
  cases T with
  | concrete t => simp [toAny, assert]
  | interface implements =>
    cases v with
    | none => cases h
    | some d => simp [toAny, assert, d.2]

end GoType

/-! ## The wrapper -/

namespace FiberChannelOf

open Channel

/-- The calls of a `FiberChannelOf[T]`. -/
inductive Op (V : Type*) where
  | send (value : V) (f : Option FiberRef)
  | receive (f : Option FiberRef)
  | trySend (value : V)
  | tryReceive

/-- The call that is made of the inner channel, with `conv` applied to the value. -/
def Op.inner {V W : Type*} (conv : V → W) : Op V → Channel.Op W
  | send value f => .send (conv value) f
  | receive f => .receive f
  | trySend value => .trySend (conv value)
  | tryReceive => .tryReceive

/-- The value that is sent. -/
def Op.value? {V : Type*} : Op V → Option V
  | send value _ | trySend value => some value
  | receive _ | tryReceive => none

/-- A step: a call, a `Close`, or a parked call that goes on. -/
inductive Label (V : Type*) where
  | call (op : Op V)
  | close
  | resume (c : Nat)

def Label.inner {V W : Type*} (conv : V → W) : Label V → Channel.Label W
  | call op => .call (op.inner conv)
  | close => .close
  | resume c => .resume c

def Label.value? {V : Type*} : Label V → Option V
  | call op => op.value?
  | close | resume _ => none

variable {U : GoTypes} (T : GoType U)

/-- The inner channel under a step of the wrapper. -/
def step (s : Sys U.Any) (l : Label T.Val) : Option (Sys U.Any) :=
  Channel.step s (l.inner T.toAny)

/-- What `Receive` makes of what the inner channel returns. -/
def receiveResult : Result U.Any → Result T.Val
  | .received v =>
    match T.assert v with
    | some val => .received val
    | none => .err ("FiberChannelOf[" ++ U.typeName (T.toAny T.zero)
        ++ "]: received unexpected type " ++ U.typeName v)
  | .sent => .sent
  | .closed => .closed
  | .notReady => .notReady
  | .ctxErr => .ctxErr
  | .err msg => .err msg

/-- What `TryReceive` makes of what the inner channel returns. -/
def tryReceiveResult : Result U.Any → Result T.Val
  | .received v =>
    match T.assert v with
    | some val => .received val
    | none => .notReady
  | r => receiveResult T r

/-- What a call on the wrapper returns. The result of a send has no value in it and is passed
on. -/
def wrap : Channel.Op U.Any → Result U.Any → Result T.Val
  | .tryReceive, r => tryReceiveResult T r
  | _, r => receiveResult T r

/-- What call `c` has returned on a channel. -/
def returnedBy {V : Type*} (s : Sys V) (c : Nat) : Option (Result V) :=
  match s.calls.phaseOf c with
  | some (.returned r) => some r
  | _ => none

/-- What call `c` has returned on the wrapper. -/
def resultOf (s : Sys U.Any) (c : Nat) : Option (Result T.Val) :=
  match s.calls.opOf c, returnedBy s c with
  | some op, some r => some (wrap T op r)
  | _, _ => none

/-! ## Reading back -/

section

variable {T}

theorem returnedBy_map {V W : Type*} (f : V → W) (s : Sys V) (c : Nat) :
    returnedBy (s.map f) c = (returnedBy s c).map (Result.map f) := by
  simp only [returnedBy, Sys.map, Calls.phaseOf_mapBoth]
  cases s.calls.phaseOf c with
  | none => rfl
  | some p => cases p <;> rfl

theorem exists_op_of_returnedBy {V : Type*} {s : Sys V} {c : Nat} {r : Result V}
    (h : returnedBy s c = some r) : ∃ op, s.calls.opOf c = some op := by
  unfold returnedBy Calls.phaseOf at h
  cases hcall : s.calls[c]? with
  | none => simp [hcall] at h
  | some call => exact ⟨call.op, by simp [Calls.opOf, hcall]⟩

/-- The wrapper hands on what it gets, if that is not nil. -/
theorem wrap_map (op : Channel.Op U.Any) {r : Result T.Val}
    (h : ∀ v, r = .received v → T.isNil v = false) : wrap T op (r.map T.toAny) = r := by
  cases r with
  | received v =>
    have hback := T.assert_toAny (h v rfl)
    cases op <;> simp only [wrap, tryReceiveResult, receiveResult, Result.map, hback]
  | sent | closed | notReady | ctxErr | err => cases op <;> rfl

/-- The calls of a run that sends no nil are calls on a channel of the other values. Induction on
the calls, one case a constructor. -/
theorem exists_lift (ls : List (Label T.Val))
    (hnil : ∀ l ∈ ls, ∀ v ∈ l.value?, T.isNil v = false) :
    ∃ ls' : List (Channel.Label { v : T.Val // T.isNil v = false }),
      ls.map (Label.inner id) = ls'.map (Channel.Label.map Subtype.val) := by
  induction ls with
  | nil => exact ⟨[], rfl⟩
  | cons l ls ih =>
    obtain ⟨ls', hls'⟩ := ih fun l hl => hnil l (List.mem_cons_of_mem _ hl)
    have hl := hnil l (List.mem_cons_self ..)
    obtain ⟨l', hl'⟩ : ∃ l' : Channel.Label { v : T.Val // T.isNil v = false },
        l.inner id = l'.map Subtype.val := by
      cases l with
      | call op =>
        cases op with
        | send v f => exact ⟨.call (.send ⟨v, hl v rfl⟩ f), rfl⟩
        | receive f => exact ⟨.call (.receive f), rfl⟩
        | trySend v => exact ⟨.call (.trySend ⟨v, hl v rfl⟩), rfl⟩
        | tryReceive => exact ⟨.call .tryReceive, rfl⟩
      | close => exact ⟨.close, rfl⟩
      | resume c => exact ⟨.resume c, rfl⟩
    exact ⟨l' :: ls', by rw [List.map_cons, List.map_cons, hl', hls']⟩

/-- A channel on which no nil is sent hands none out: it is the image of a channel of the other
values. -/
theorem not_nil_of_exec {capacity : Int} {ls : List (Label T.Val)}
    (hnil : ∀ l ∈ ls, ∀ v ∈ l.value?, T.isNil v = false) {r : Sys T.Val}
    (h : Trans.exec Channel.step (init capacity) (ls.map (Label.inner id)) = some r) {c : Nat}
    {v : T.Val} (hv : returnedBy r c = some (.received v)) : T.isNil v = false := by
  obtain ⟨ls', hls'⟩ := exists_lift ls hnil
  rw [hls', Channel.exec_map] at h
  obtain ⟨r', -, rfl⟩ := Option.map_eq_some_iff.mp h
  rw [returnedBy_map] at hv
  obtain ⟨x, -, hx⟩ := Option.map_eq_some_iff.mp hv
  cases x with
  | received v' =>
    cases hx
    exact v'.2
  | sent | closed | notReady | ctxErr | err => cases hx

/-- The inner channel of a wrapper does what a channel of `T` does, with the values converted. -/
theorem exec_step (capacity : Int) (ls : List (Label T.Val)) :
    Trans.exec (step T) (init capacity) ls
      = (Trans.exec Channel.step (init capacity) (ls.map (Label.inner id))).map
          (Sys.map T.toAny) := by
  have hlabel : ∀ l : Label T.Val, (l.inner id).map T.toAny = l.inner T.toAny := by
    intro l
    cases l with
    | call op => cases op <;> rfl
    | close => rfl
    | resume c => rfl
  have hinner : Trans.exec (step T) (init capacity) ls
      = Trans.exec Channel.step (init capacity) (ls.map (Label.inner T.toAny)) := by
    have hone : ∀ (s : Sys U.Any) (l : Label T.Val),
        Channel.step (id s) (l.inner T.toAny) = (step T s l).map id := by simp [step]
    simpa using (Trans.exec_map hone (init capacity) ls).symm
  rw [hinner, ← Channel.exec_map, List.map_map]
  congr 1
  exact List.map_congr_left fun l _ => (hlabel l).symm

end

/-- For every type, every capacity and every run in which no nil interface value is sent: the
same run on a channel of `T` exists, every call returns the same there, and a `TryReceive` that
returns `false` has removed nothing from the channel. -/
theorem transparent (capacity : Int) (ls : List (Label T.Val))
    (hnil : ∀ l ∈ ls, ∀ v ∈ l.value?, T.isNil v = false) {s : Sys U.Any}
    (h : Trans.exec (step T) (init capacity) ls = some s) :
    ∃ r : Sys T.Val,
      Trans.exec Channel.step (init capacity) (ls.map (Label.inner id)) = some r
      ∧ s = r.map T.toAny
      ∧ (∀ c, resultOf T s c = returnedBy r c)
      ∧ ∀ c, s.calls.opOf c = some .tryReceive → resultOf T s c = some .notReady →
        returnedBy s c = some .notReady := by
  rw [exec_step] at h
  obtain ⟨r, hr, rfl⟩ := Option.map_eq_some_iff.mp h
  have hresult : ∀ c, resultOf T (r.map T.toAny) c = returnedBy r c := by
    intro c
    unfold resultOf
    rw [returnedBy_map]
    cases hret : returnedBy r c with
    | none => cases (r.map T.toAny).calls.opOf c <;> rfl
    | some x =>
      -- the wrapper could only change a nil, and none has been sent
      obtain ⟨op, hop⟩ := exists_op_of_returnedBy hret
      have hop' : (r.map T.toAny).calls.opOf c = some (op.map T.toAny) := by
        simp only [Sys.map, Calls.opOf_mapBoth, hop, Option.map_some]
      rw [hop', Option.map_some]
      refine congrArg some (wrap_map _ fun v hv => ?_)
      subst hv
      exact not_nil_of_exec hnil hr hret
  refine ⟨r, hr, rfl, hresult, fun c _ hnot => ?_⟩
  rw [hresult] at hnot
  rw [returnedBy_map, hnot]
  rfl

/-- A program with one type. -/
def intOnly : GoTypes where
  Ty := Unit
  decEq := inferInstance
  Val _ := Int
  zero _ := 0
  name _ := "int"

/-- `any`, which every type implements. -/
def anyType : GoType intOnly := .interface fun _ => true

/-- The integer 5 as a value of type `any`. -/
def five : anyType.Val := some ⟨⟨(), (5 : Int)⟩, rfl⟩

/-- A 5 goes through a channel of `any`. -/
theorem transparent_five :
    ∃ s r, Trans.exec (step anyType) (init 1) [.call (.trySend five), .call .tryReceive] = some s
      ∧ resultOf anyType s 1 = some (.received five)
      ∧ Trans.exec Channel.step (init 1)
          ([.call (.trySend five), .call .tryReceive].map (Label.inner id)) = some r
      ∧ s = r.map anyType.toAny
      ∧ (∀ c, resultOf anyType s c = returnedBy r c)
      ∧ ∀ c, s.calls.opOf c = some .tryReceive → resultOf anyType s c = some .notReady →
        returnedBy s c = some .notReady := by
  obtain ⟨r, hr, hs, hresult, hfalse⟩ := transparent anyType 1
    [.call (.trySend five), .call .tryReceive]
    (by
      intro l hl v hv
      simp only [List.mem_cons, List.not_mem_nil, or_false] at hl
      rcases hl with rfl | rfl
      · cases hv
        rfl
      · cases hv)
    rfl
  exact ⟨_, r, rfl, rfl, hr, hs, hresult, hfalse⟩

/-- A nil does not: on a channel of `any` it is sent, `TryReceive` takes it out of the channel and
returns `false`, and `Receive` takes it out and returns an error. -/
theorem nil_is_lost :
    (∃ s, Trans.exec (step anyType) (init 1) [.call (.trySend none), .call .tryReceive] = some s
      ∧ resultOf anyType s 0 = some .sent
      ∧ returnedBy s 1 = some (.received none) ∧ s.fc.buffer = []
      ∧ resultOf anyType s 1 = some .notReady)
    ∧ ∃ s, Trans.exec (step anyType) (init 1) [.call (.trySend none), .call (.receive none)]
        = some s
      ∧ resultOf anyType s 0 = some .sent
      ∧ returnedBy s 1 = some (.received none) ∧ s.fc.buffer = []
      ∧ resultOf anyType s 1
        = some (.err "FiberChannelOf[<nil>]: received unexpected type <nil>") :=
  ⟨⟨_, rfl, rfl, rfl, rfl, rfl⟩, ⟨_, rfl, rfl, rfl, rfl, rfl⟩⟩

end FiberChannelOf

end GreenThreads.Sync
