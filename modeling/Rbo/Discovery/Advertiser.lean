import Mathlib.Algebra.GroupWithZero.Nat
import Rbo.Foundation.Run
import Rbo.Foundation.Texts
import Rbo.Foundation.Utf8

/-!
# The mDNS advertiser of the controller

`ControllerAdvertiser` holds one Bonjour instance.  `stop` tears it down, and a
rebind tears it down and publishes a new one.  A teardown takes its time: until
its callbacks or the hard timeout end it, later callers are given the promise
of the teardown under way.

The calls, the timers, the errors of the sockets, the ends of teardowns and the
continuations of `stop` and `rebind` are the steps of a machine, in any order.
The callbacks of the options do not call the advertiser.
-/

namespace Rbo.Discovery.Advertiser

open Rbo.Foundation

abbrev Text := List Char

/-! ## The display name -/

def isControl (char : Char) : Bool :=
  char.toNat ≤ 0x1F || 0x7F ≤ char.toNat && char.toNat ≤ 0x9F

/-- The trimmed name, none when the function throws. -/
def validateMdnsDisplayName (name : Text) : Option Text :=
  let trimmed := trim name
  if trimmed = [] ∨ 63 < (Utf8.encode trimmed).length ∨
      trimmed.any isControl = true then
    none
  else
    some trimmed

/-! ## The fields -/

structure AdvertiserOptions where
  port : Nat
  controllerId : Text
  fingerprint : Text
  displayName : Option Text
  interface : Option Text
  deriving DecidableEq

/-- The promise in `stopPromise`; it has settled when both calls of Bonjour
threw at once, before the field was set. -/
structure Teardown where
  instance_ : Nat
  settled : Bool
  deriving DecidableEq

/-- A rebind in flight: it awaits a teardown, or a settled promise, and then
its `finally`. -/
inductive Rebind where
  | awaiting (teardown : Option Nat)
  | ending
  deriving DecidableEq

/-- A call of `stop`: what it awaits, whether its promise has resolved, and
whether `start` was called after it. -/
structure StopCall where
  teardown : Option Nat
  resolved : Bool
  followed : Bool
  deriving DecidableEq

/-- The fields of a `ControllerAdvertiser`, an instance named by the generation
in which it is published.  A rebind timer holds its delay. -/
structure State where
  bonjour : Option Nat
  stopPromise : Option Teardown
  options : Option AdvertiserOptions
  displayName : Text
  boundInterface : Option Text
  watchTimer : Bool
  rebindTimer : Option Nat
  rebindInFlight : Option Rebind
  rebindAttempts : Nat
  generation : Nat
  closed : Bool
  /-- The instances whose sockets may report errors. -/
  published : List Nat
  /-- The instances that are neither destroyed nor being torn down. -/
  live : List Nat
  stops : List StopCall
  deriving DecidableEq

/-! ## The methods -/

def rebindBaseMs : Nat := 500

def rebindMaxMs : Nat := 30000

/-- `publish`, bound to the address that the interfaces give. -/
def publish (state : State) (address : Option Text) : State :=
  if state.options = none ∨ state.closed = true then state
  else
    let generation := state.generation + 1
    { state with
      generation := generation
      boundInterface := address
      bonjour := some generation
      published := generation :: state.published
      live := generation :: state.live }

def ensureWatch (state : State) : State :=
  if state.watchTimer || state.closed then state
  else { state with watchTimer := true }

def scheduleRebind (state : State) : State :=
  if state.closed || state.rebindTimer.isSome ||
      state.rebindInFlight.isSome then
    state
  else
    { state with
      rebindAttempts := state.rebindAttempts + 1
      rebindTimer :=
        some (min rebindMaxMs
          (rebindBaseMs * 2 ^ min state.rebindAttempts 6)) }

/-- `teardown`, with what its promise waits for; `throws` when both calls of
Bonjour throw. -/
def teardown (throws : Bool) (state : State) : State × Option Nat :=
  match state.stopPromise with
  | some promise =>
    (state, if promise.settled then none else some promise.instance_)
  | none =>
    match state.bonjour with
    | none => ({ state with generation := state.generation + 1 }, none)
    | some id =>
      ({ state with
          generation := state.generation + 1
          bonjour := none
          live := state.live.erase id
          stopPromise := some { instance_ := id, settled := throws } },
        if throws then none else some id)

/-- Every call of `stop` so far is followed by a `start`. -/
def follow (state : State) : State :=
  { state with
    stops := state.stops.map fun call => { call with followed := true } }

def start (options : AdvertiserOptions) (address : Option Text)
    (state : State) : State :=
  if state.options.isSome then follow state
  else
    match validateMdnsDisplayName
        (options.displayName.getD "rbo-controller".toList) with
    | none => follow state
    | some displayName =>
      ensureWatch (publish
        { follow state with
          displayName := displayName
          closed := false
          rebindAttempts := 0
          options := some options }
        address)

def stop (throws : Bool) (state : State) : State :=
  let result := teardown throws
    { state with
      closed := true
      options := none
      watchTimer := false
      rebindTimer := none }
  { result.1 with
    stops := ⟨result.2, false, false⟩ :: result.1.stops }

/-- The watch timer, when the interfaces give this address. -/
def watch (address : Option Text) (state : State) : State :=
  if state.closed || state.options.isNone || state.rebindTimer.isSome ||
      state.rebindInFlight.isSome then
    state
  else if address = state.boundInterface then
    { state with rebindAttempts := 0 }
  else
    scheduleRebind { state with rebindAttempts := 0 }

/-- The rebind timer: `beginRebind`, and `rebind` up to its await. -/
def beginRebind (throws : Bool) (state : State) : State :=
  let state := { state with rebindTimer := none }
  if state.closed || state.options.isNone || state.rebindInFlight.isSome then
    state
  else
    let result := teardown throws state
    { result.1 with rebindInFlight := some (.awaiting result.2) }

/-- An error of the socket of an instance, of a code that says that the
interface is lost. -/
def interfaceLost (generation : Nat) (state : State) : State :=
  if generation ≠ state.generation ∨ state.closed = true then state
  else if state.rebindTimer.isSome || state.rebindInFlight.isSome then state
  else scheduleRebind state

/-- The promise of a teardown has settled. -/
def settled (state : State) (awaited : Option Nat) : Bool :=
  awaited.all fun id => state.stopPromise != some ⟨id, false⟩

/-! ## The machine -/

inductive Label where
  | start (options : AdvertiserOptions) (address : Option Text)
  | stop (throws : Bool)
  | watch (address : Option Text)
  | rebindTimer (throws : Bool)
  | interfaceLost (generation : Nat)
  /-- The callbacks of the teardown under way, or its hard timeout. -/
  | finish
  /-- `rebind` after its await. -/
  | rebindResumes (address : Option Text)
  /-- The `finally` of `beginRebind`. -/
  | rebindEnds
  | stopResolves (index : Nat)
  deriving DecidableEq

def initialState : State where
  bonjour := none
  stopPromise := none
  options := none
  displayName := []
  boundInterface := none
  watchTimer := false
  rebindTimer := none
  rebindInFlight := none
  rebindAttempts := 0
  generation := 0
  closed := false
  published := []
  live := []
  stops := []

def machine : Machine State Label where
  initial state := state = initialState
  step state
    | .start options address => some (start options address state)
    | .stop throws => some (stop throws state)
    | .watch address =>
      if state.watchTimer then some (watch address state) else none
    | .rebindTimer throws =>
      if state.rebindTimer.isSome then some (beginRebind throws state)
      else none
    | .interfaceLost generation =>
      if generation ∈ state.published then
        some (interfaceLost generation state)
      else none
    | .finish =>
      if state.stopPromise.any (!·.settled) then
        some { state with stopPromise := none }
      else none
    | .rebindResumes address =>
      match state.rebindInFlight with
      | some (.awaiting awaited) =>
        if settled state awaited then
          some { publish state address with
            rebindInFlight := some .ending }
        else none
      | _ => none
    | .rebindEnds =>
      if state.rebindInFlight = some .ending then
        some { state with rebindInFlight := none }
      else none
    | .stopResolves index =>
      state.stops[index]?.bind fun call =>
        if settled state call.teardown && !call.resolved then
          some { state with
            stops := state.stops.set index { call with resolved := true } }
        else none

/-! ## What is asked of the advertiser -/

/-- At most one instance is live, the one that is held; and after a `stop` that
has resolved, without a `start` since, none is, and no timer is armed. -/
structure Kept (state : State) : Prop where
  single : state.live.length ≤ 1
  held : ∀ id ∈ state.live, state.bonjour = some id
  stopped : ∀ call ∈ state.stops, call.resolved = true →
    call.followed = false →
    state.live = [] ∧ state.watchTimer = false ∧ state.rebindTimer = none

/-- No instance is published while another one is held, and no `stop` meets an
instance that is held while an earlier one is still torn down. -/
def Careful (state : State) : Label → Prop
  | .start options _ =>
    state.options = none →
      (validateMdnsDisplayName (options.displayName.getD
        "rbo-controller".toList)).isSome = true →
      state.bonjour = none
  | .rebindResumes _ =>
    state.options.isSome = true → state.closed = false →
      state.bonjour = none
  | .stop _ => state.stopPromise = none ∨ state.bonjour = none
  | _ => True

/-! ## One step -/

section Steps

variable {state next : State} {label : Label}

/-- What a `stop` leaves. -/
structure Stopped (state : State) : Prop where
  closed : state.closed = true
  options : state.options = none
  bonjour : state.bonjour = none
  watchTimer : state.watchTimer = false
  rebindTimer : state.rebindTimer = none

/-- The held instance is the live one, and what a `stop` left is as it was
until the next `start`. -/
structure Sound (state : State) : Prop where
  live : state.live = state.bonjour.toList
  stopped : ∀ call ∈ state.stops, call.followed = false → Stopped state

theorem sound_of_followed (live : state.live = state.bonjour.toList)
    (followed : ∀ call ∈ state.stops, call.followed ≠ false) :
    Sound state :=
  ⟨live, fun call member unfollowed =>
    absurd unfollowed (followed call member)⟩

/-- While the advertiser is not closed every `stop` is followed. -/
theorem Sound.followed (sound : Sound state) (running : state.closed = false) :
    ∀ call ∈ state.stops, call.followed ≠ false := by
  intro call member unfollowed
  have closed := (sound.stopped call member unfollowed).closed
  rw [running] at closed
  cases closed

variable {address : Option Text}

theorem publish_of_open (given : state.options.isSome = true)
    (running : state.closed = false) :
    publish state address =
      { state with
        generation := state.generation + 1
        boundInterface := address
        bonjour := some (state.generation + 1)
        published := (state.generation + 1) :: state.published
        live := (state.generation + 1) :: state.live } := by
  unfold publish
  rw [if_neg]
  rintro (missing | closed)
  · rw [missing] at given
    cases given
  · rw [running] at closed
    cases closed

theorem Sound.ensureWatch (sound : Sound state)
    (running : state.closed = false) : Sound (ensureWatch state) := by
  unfold Advertiser.ensureWatch
  split
  · exact sound
  · exact sound_of_followed sound.live (sound.followed running)

theorem Sound.scheduleRebind (sound : Sound state) :
    Sound (scheduleRebind state) := by
  unfold Advertiser.scheduleRebind
  split
  · exact sound
  · rename_i armed
    simp only [Bool.or_eq_true, not_or, Bool.not_eq_true] at armed
    exact sound_of_followed sound.live (sound.followed armed.1.1)

theorem followed_follow : ∀ call ∈ (follow state).stops,
    call.followed ≠ false := by
  intro call member
  obtain ⟨old, -, rfl⟩ := List.mem_map.mp member
  nofun

theorem Sound.start {options : AdvertiserOptions} (sound : Sound state)
    (careful : Careful state (.start options address)) :
    Sound (start options address state) := by
  have still : Sound (follow state) :=
    sound_of_followed sound.live followed_follow
  unfold Advertiser.start
  split
  · exact still
  · rename_i fresh
    cases named : validateMdnsDisplayName
        (options.displayName.getD "rbo-controller".toList) with
    | none => exact still
    | some displayName =>
      have empty : state.bonjour = none :=
        careful (Option.not_isSome_iff_eq_none.mp fresh)
          (by rw [named]; rfl)
      have live : state.live = [] := by rw [sound.live, empty]; rfl
      dsimp only
      rw [publish_of_open rfl rfl]
      refine Sound.ensureWatch (sound_of_followed ?_ followed_follow) rfl
      exact congrArg _ live

/-- A teardown leaves no instance, or gives the promise of an earlier one. -/
theorem teardown_cases (throws : Bool) :
    (∃ promise, state.stopPromise = some promise ∧
      (teardown throws state).1 = state) ∨
    (state.stopPromise = none ∧ ∃ promise,
      (teardown throws state).1 =
        { state with
          generation := state.generation + 1
          bonjour := none
          live := state.bonjour.elim state.live state.live.erase
          stopPromise := promise }) := by
  unfold teardown
  cases state.stopPromise with
  | some promise => exact .inl ⟨promise, rfl, rfl⟩
  | none =>
    refine .inr ⟨rfl, ?_⟩
    cases held : state.bonjour with
    | none => exact ⟨none, by rw [Option.elim_none]⟩
    | some id => exact ⟨_, rfl⟩

/-- What is live after a teardown is still what is held. -/
theorem teardown_live (live : state.live = state.bonjour.toList)
    (throws : Bool) :
    (teardown throws state).1.live =
      (teardown throws state).1.bonjour.toList := by
  rcases @teardown_cases state throws with ⟨_, -, same⟩ | ⟨-, _, torn⟩
  · rw [same]
    exact live
  · rw [torn]
    dsimp only
    rw [live]
    cases state.bonjour with
    | none => rfl
    | some id => simp

/-- The state in which `stop` calls `teardown`. -/
def closing (state : State) : State :=
  { state with
    closed := true
    options := none
    watchTimer := false
    rebindTimer := none }

theorem stop_eq (throws : Bool) :
    stop throws state =
      { (teardown throws (closing state)).1 with
        stops := ⟨(teardown throws (closing state)).2, false, false⟩ ::
          (teardown throws (closing state)).1.stops } :=
  rfl

theorem Sound.stop {throws : Bool} (sound : Sound state)
    (careful : Careful state (.stop throws)) : Sound (stop throws state) := by
  have live := @teardown_live (closing state) sound.live throws
  have stopped : Stopped (teardown throws (closing state)).1 := by
    rcases @teardown_cases (closing state) throws with
      ⟨promise, pending, same⟩ | ⟨-, _, torn⟩
    · rw [same]
      refine ⟨rfl, rfl, ?_, rfl, rfl⟩
      rcases careful with ended | empty
      · cases ended.symm.trans pending
      · exact empty
    · rw [torn]
      exact ⟨rfl, rfl, rfl, rfl, rfl⟩
  rw [stop_eq]
  exact ⟨live, fun _ _ _ => ⟨stopped.closed, stopped.options,
    stopped.bonjour, stopped.watchTimer, stopped.rebindTimer⟩⟩

theorem Sound.beginRebind {throws : Bool} (sound : Sound state) :
    Sound (beginRebind throws state) := by
  unfold Advertiser.beginRebind
  dsimp only
  split
  · refine ⟨sound.live, ?_⟩
    intro call member unfollowed
    have stopped := sound.stopped call member unfollowed
    exact ⟨stopped.closed, stopped.options, stopped.bonjour,
      stopped.watchTimer, rfl⟩
  · rename_i goes
    simp only [Bool.or_eq_true, not_or, Bool.not_eq_true] at goes
    refine sound_of_followed (@teardown_live
      { state with rebindTimer := none } sound.live throws) ?_
    rcases @teardown_cases { state with rebindTimer := none } throws with
      ⟨_, -, same⟩ | ⟨-, _, torn⟩
    · rw [same]
      exact sound.followed goes.1.1
    · rw [torn]
      exact sound.followed goes.1.1

/-- A step that leaves these fields as they are. -/
structure Quiet (state next : State) : Prop where
  live : next.live = state.live
  bonjour : next.bonjour = state.bonjour
  closed : next.closed = state.closed
  options : next.options = state.options
  watchTimer : next.watchTimer = state.watchTimer
  rebindTimer : next.rebindTimer = state.rebindTimer
  stops : ∀ call ∈ next.stops, call.followed = false →
    ∃ old ∈ state.stops, old.followed = false

theorem Sound.quiet (sound : Sound state) (quiet : Quiet state next) :
    Sound next := by
  refine ⟨quiet.live.trans (quiet.bonjour ▸ sound.live), ?_⟩
  intro call member unfollowed
  obtain ⟨old, before, unfollowed⟩ := quiet.stops call member unfollowed
  have stopped := sound.stopped old before unfollowed
  exact ⟨quiet.closed.trans stopped.closed,
    quiet.options.trans stopped.options,
    quiet.bonjour.trans stopped.bonjour,
    quiet.watchTimer.trans stopped.watchTimer,
    quiet.rebindTimer.trans stopped.rebindTimer⟩

theorem Sound.watch (sound : Sound state) : Sound (watch address state) := by
  have counted : Sound { state with rebindAttempts := 0 } :=
    sound.quiet ⟨rfl, rfl, rfl, rfl, rfl, rfl,
      fun call member unfollowed => ⟨call, member, unfollowed⟩⟩
  unfold Advertiser.watch
  split
  · exact sound
  · split
    · exact counted
    · exact counted.scheduleRebind

theorem Sound.interfaceLost {generation : Nat} (sound : Sound state) :
    Sound (interfaceLost generation state) := by
  unfold Advertiser.interfaceLost
  split
  · exact sound
  · split
    · exact sound
    · exact sound.scheduleRebind

theorem Sound.rebindResumes (sound : Sound state)
    (careful : Careful state (.rebindResumes address)) :
    Sound { publish state address with rebindInFlight := some .ending } := by
  by_cases goes : state.options = none ∨ state.closed = true
  · have same : publish state address = state := if_pos goes
    rw [same]
    exact sound.quiet ⟨rfl, rfl, rfl, rfl, rfl, rfl,
      fun call member unfollowed => ⟨call, member, unfollowed⟩⟩
  · rw [not_or, Bool.not_eq_true, ← ne_eq,
      ← Option.isSome_iff_ne_none] at goes
    have empty := careful goes.1 goes.2
    rw [publish_of_open goes.1 goes.2]
    refine sound_of_followed ?_ (sound.followed goes.2)
    dsimp only
    rw [sound.live, empty]
    rfl

/-- A resolved call was there before, and as much followed. -/
theorem exists_of_mem_set {stops : List StopCall} {index : Nat}
    {call : StopCall} (there : stops[index]? = some call) :
    ∀ other ∈ stops.set index { call with resolved := true },
      other.followed = false → ∃ old ∈ stops, old.followed = false := by
  intro other member unfollowed
  rcases List.mem_or_eq_of_mem_set member with old | rfl
  · exact ⟨other, old, unfollowed⟩
  · exact ⟨call, List.mem_of_getElem? there, unfollowed⟩

theorem rebindResumes_cases
    (stepped : machine.step state (.rebindResumes address) = some next) :
    next = { publish state address with rebindInFlight := some .ending } := by
  simp only [machine] at stepped
  split at stepped
  · obtain ⟨-, resumed⟩ := Option.ite_none_right_eq_some.mp stepped
    exact (Option.some.inj resumed).symm
  · cases stepped

theorem stopResolves_cases {index : Nat}
    (stepped : machine.step state (.stopResolves index) = some next) :
    ∃ call, state.stops[index]? = some call ∧
      next = { state with
        stops := state.stops.set index { call with resolved := true } } := by
  obtain ⟨call, there, stepped⟩ := Option.bind_eq_some_iff.mp stepped
  obtain ⟨-, resolved⟩ := Option.ite_none_right_eq_some.mp stepped
  exact ⟨call, there, (Option.some.inj resolved).symm⟩

theorem Sound.step (sound : Sound state) (careful : Careful state label)
    (stepped : machine.step state label = some next) : Sound next := by
  have same : ∀ call ∈ state.stops, call.followed = false →
      ∃ old ∈ state.stops, old.followed = false :=
    fun call member unfollowed => ⟨call, member, unfollowed⟩
  cases label with
  | start options address =>
    cases stepped
    exact sound.start careful
  | stop throws =>
    cases stepped
    exact sound.stop careful
  | watch address =>
    obtain ⟨-, fired⟩ := Option.ite_none_right_eq_some.mp stepped
    cases fired
    exact sound.watch
  | rebindTimer throws =>
    obtain ⟨-, fired⟩ := Option.ite_none_right_eq_some.mp stepped
    cases fired
    exact sound.beginRebind
  | interfaceLost generation =>
    obtain ⟨-, fired⟩ := Option.ite_none_right_eq_some.mp stepped
    cases fired
    exact sound.interfaceLost
  | finish =>
    obtain ⟨-, fired⟩ := Option.ite_none_right_eq_some.mp stepped
    cases fired
    exact sound.quiet ⟨rfl, rfl, rfl, rfl, rfl, rfl, same⟩
  | rebindResumes address =>
    obtain rfl := rebindResumes_cases stepped
    exact sound.rebindResumes careful
  | rebindEnds =>
    obtain ⟨-, fired⟩ := Option.ite_none_right_eq_some.mp stepped
    cases fired
    exact sound.quiet ⟨rfl, rfl, rfl, rfl, rfl, rfl, same⟩
  | stopResolves index =>
    obtain ⟨call, there, rfl⟩ := stopResolves_cases stepped
    exact sound.quiet ⟨rfl, rfl, rfl, rfl, rfl, rfl,
      exists_of_mem_set there⟩

theorem Sound.kept (sound : Sound state) : Kept state := by
  have live := sound.live
  refine ⟨?_, ?_, ?_⟩
  · rw [live]
    cases state.bonjour with
    | none => exact Nat.zero_le 1
    | some id => exact Nat.le_refl 1
  · intro id member
    rw [live] at member
    exact Option.mem_toList.mp member
  · intro call member _ unfollowed
    have stopped := sound.stopped call member unfollowed
    rw [stopped.bonjour] at live
    exact ⟨live, stopped.watchTimer, stopped.rebindTimer⟩

end Steps

/-! ## The instances of any run -/

section Instances

variable {state next : State} {label : Label}

/-- The held instance is live. -/
def HeldLive (state : State) : Prop :=
  ∀ id, state.bonjour = some id → id ∈ state.live

section

variable (held : HeldLive state)

include held

theorem HeldLive.of_eq (live : next.live = state.live)
    (bonjour : next.bonjour = state.bonjour) :
    HeldLive next := by
  unfold HeldLive
  rw [live, bonjour]
  exact held

theorem HeldLive.publish (address : Option Text) :
    HeldLive (publish state address) := by
  by_cases goes : state.options = none ∨ state.closed = true
  · rw [show Advertiser.publish state address = state from if_pos goes]
    exact held
  · rw [not_or, Bool.not_eq_true, ← ne_eq,
      ← Option.isSome_iff_ne_none] at goes
    rw [publish_of_open goes.1 goes.2]
    rintro _ ⟨⟩
    exact List.mem_cons_self

theorem HeldLive.teardown (throws : Bool) :
    HeldLive (teardown throws state).1 := by
  rcases @teardown_cases state throws with ⟨_, -, same⟩ | ⟨-, _, torn⟩
  · rw [same]
    exact held
  · rw [torn]
    rintro _ ⟨⟩

theorem HeldLive.ensureWatch :
    HeldLive (ensureWatch state) := by
  unfold Advertiser.ensureWatch
  split
  · exact held
  · exact held.of_eq rfl rfl

theorem HeldLive.scheduleRebind :
    HeldLive (scheduleRebind state) := by
  unfold Advertiser.scheduleRebind
  split
  · exact held
  · exact held.of_eq rfl rfl

theorem HeldLive.start {options : AdvertiserOptions} {address : Option Text} :
    HeldLive (start options address state) := by
  have still : HeldLive (follow state) := held.of_eq rfl rfl
  unfold Advertiser.start
  split
  · exact still
  · split
    · exact still
    · refine HeldLive.ensureWatch (HeldLive.publish ?_ address)
      exact still.of_eq rfl rfl

theorem HeldLive.step (stepped : machine.step state label = some next) :
    HeldLive next := by
  cases label with
  | start options address =>
    cases stepped
    exact held.start
  | stop throws =>
    cases stepped
    rw [stop_eq]
    have closed : HeldLive (closing state) := held.of_eq rfl rfl
    exact (closed.teardown throws).of_eq rfl rfl
  | watch address =>
    obtain ⟨-, fired⟩ := Option.ite_none_right_eq_some.mp stepped
    cases fired
    have counted : HeldLive { state with rebindAttempts := 0 } :=
      held.of_eq rfl rfl
    unfold Advertiser.watch
    split
    · exact held
    · split
      · exact counted
      · exact counted.scheduleRebind
  | rebindTimer throws =>
    obtain ⟨-, fired⟩ := Option.ite_none_right_eq_some.mp stepped
    cases fired
    have disarmed : HeldLive { state with rebindTimer := none } :=
      held.of_eq rfl rfl
    unfold beginRebind
    dsimp only
    split
    · exact disarmed
    · exact (disarmed.teardown throws).of_eq rfl rfl
  | interfaceLost generation =>
    obtain ⟨-, fired⟩ := Option.ite_none_right_eq_some.mp stepped
    cases fired
    unfold Advertiser.interfaceLost
    split
    · exact held
    · split
      · exact held
      · exact held.scheduleRebind
  | finish =>
    obtain ⟨-, fired⟩ := Option.ite_none_right_eq_some.mp stepped
    cases fired
    exact held.of_eq rfl rfl
  | rebindResumes address =>
    obtain rfl := rebindResumes_cases stepped
    exact (held.publish address).of_eq rfl rfl
  | rebindEnds =>
    obtain ⟨-, fired⟩ := Option.ite_none_right_eq_some.mp stepped
    cases fired
    exact held.of_eq rfl rfl
  | stopResolves index =>
    obtain ⟨call, -, rfl⟩ := stopResolves_cases stepped
    exact held.of_eq rfl rfl

end

theorem heldLive_of_reachable
    (reachable : machine.Reachable (fun _ _ => True) state) :
    HeldLive state := by
  refine reachable.invariant ?_ fun _ _ _ held _ stepped =>
    held.step stepped
  rintro _ rfl
  rintro _ ⟨⟩

/-- A publish on top of a held instance leaves two live ones. -/
theorem not_kept_of_published {address : Option Text}
    (held : HeldLive state) (given : state.options.isSome = true)
    (running : state.closed = false) (busy : state.bonjour ≠ none)
    (live : next.live = (publish state address).live) : ¬ Kept next := by
  intro kept
  obtain ⟨id, there⟩ := Option.ne_none_iff_exists'.mp busy
  have member := held id there
  have single := kept.single
  rw [live, publish_of_open given running, List.length_cons] at single
  have some_ := List.length_pos_of_mem member
  omega

theorem live_ensureWatch : (ensureWatch state).live = state.live := by
  unfold ensureWatch
  split <;> rfl

theorem not_kept_of_start {options : AdvertiserOptions}
    {address : Option Text} (held : HeldLive state)
    (fresh : state.options = none)
    (valid : (validateMdnsDisplayName (options.displayName.getD
      "rbo-controller".toList)).isSome = true)
    (busy : state.bonjour ≠ none) :
    ¬ Kept (start options address state) := by
  obtain ⟨displayName, named⟩ := Option.isSome_iff_exists.mp valid
  unfold start
  rw [fresh, named, Option.isSome_none, if_neg Bool.false_ne_true]
  dsimp only
  have opened : HeldLive { follow state with
      displayName := displayName
      closed := false
      rebindAttempts := 0
      options := some options } := held.of_eq rfl rfl
  exact not_kept_of_published opened rfl rfl busy live_ensureWatch

/-- What a `stop` leaves that finds a promise there. -/
def stoppedWith (state : State) (promise : Option Teardown)
    (call : StopCall) : State :=
  { closing state with
    stopPromise := promise
    stops := call :: state.stops }

theorem stop_of_tearing {promise : Teardown}
    (pending : state.stopPromise = some promise) (throws : Bool) :
    stop throws state = stoppedWith state (some promise)
      ⟨if promise.settled then none else some promise.instance_, false,
        false⟩ := by
  have left : teardown throws (closing state) =
      (closing state,
        if promise.settled then none else some promise.instance_) := by
    unfold teardown
    rw [show (closing state).stopPromise = some promise from pending]
  rw [stop_eq, left, ← pending]
  rfl

/-- With an instance live, a resolved `stop` breaks what is asked. -/
theorem not_kept_of_resolved {promise awaited : Option _} {id : Nat}
    (live : id ∈ state.live) :
    ¬ Kept (stoppedWith state promise ⟨awaited, true, false⟩) := by
  intro kept
  have empty := (kept.stopped _ List.mem_cons_self rfl rfl).1
  rw [show (stoppedWith state promise _).live = state.live from rfl] at empty
  rw [empty] at live
  cases live

/-- A `stop` that is given the promise of an earlier teardown resolves with an
instance still live. -/
theorem exists_not_kept_of_stop {throws : Bool} (held : HeldLive state)
    (tearing : state.stopPromise ≠ none) (busy : state.bonjour ≠ none) :
    ∃ later, machine.Steps (fun _ _ => True) (stop throws state) later ∧
      ¬ Kept later := by
  obtain ⟨promise, pending⟩ := Option.ne_none_iff_exists'.mp tearing
  obtain ⟨id, there⟩ := Option.ne_none_iff_exists'.mp busy
  have live := held id there
  rw [stop_of_tearing pending]
  cases ended : promise.settled with
  | true =>
    have resolves : machine.step
        (stoppedWith state (some promise) ⟨none, false, false⟩)
        (.stopResolves 0) =
          some (stoppedWith state (some promise) ⟨none, true, false⟩) :=
      rfl
    exact ⟨_, .single ⟨_, trivial, resolves⟩, not_kept_of_resolved live⟩
  | false =>
    have finishes : machine.step
        (stoppedWith state (some promise)
          ⟨some promise.instance_, false, false⟩) .finish =
          some (stoppedWith state none
            ⟨some promise.instance_, false, false⟩) := by
      refine if_pos ?_
      change (!promise.settled) = true
      rw [ended]
      rfl
    have resolves : machine.step
        (stoppedWith state none ⟨some promise.instance_, false, false⟩)
        (.stopResolves 0) =
          some (stoppedWith state none
            ⟨some promise.instance_, true, false⟩) :=
      rfl
    exact ⟨_, .tail (.single ⟨_, trivial, finishes⟩)
      ⟨_, trivial, resolves⟩, not_kept_of_resolved live⟩

end Instances

/-- As long as no instance is published while another is held, and no `stop`
meets a held instance during an earlier teardown, at most one instance is live,
and a `stop` leaves none.  The first step that breaks this leads to a state
with two live instances, or with one after a resolved `stop`. -/
theorem advertiser_kept (state : State) :
    (machine.Reachable Careful state → Kept state) ∧
    ∀ label next, machine.Reachable (fun _ _ => True) state →
      ¬ Careful state label → machine.step state label = some next →
      ∃ later, machine.Steps (fun _ _ => True) next later ∧
        ¬ Kept later := by
  constructor
  · intro reachable
    have sound : Sound state := by
      refine reachable.invariant ?_ fun _ _ _ sound careful stepped =>
        sound.step careful stepped
      rintro _ rfl
      exact ⟨rfl, nofun⟩
    exact sound.kept
  · intro label next reachable careless stepped
    have held := heldLive_of_reachable reachable
    cases label with
    | start options address =>
      cases stepped
      simp only [Careful, Classical.not_imp] at careless
      obtain ⟨fresh, valid, busy⟩ := careless
      exact ⟨_, .refl, not_kept_of_start held fresh valid busy⟩
    | rebindResumes address =>
      obtain rfl := rebindResumes_cases stepped
      simp only [Careful, Classical.not_imp] at careless
      obtain ⟨given, running, busy⟩ := careless
      exact ⟨_, .refl, not_kept_of_published held given running busy rfl⟩
    | stop throws =>
      cases stepped
      simp only [Careful, not_or] at careless
      exact exists_not_kept_of_stop held careless.1 careless.2
    | watch address => exact absurd trivial careless
    | rebindTimer throws => exact absurd trivial careless
    | interfaceLost generation => exact absurd trivial careless
    | finish => exact absurd trivial careless
    | rebindEnds => exact absurd trivial careless
    | stopResolves index => exact absurd trivial careless

/-! ## A restart that is not awaited -/

def sampleOptions : AdvertiserOptions where
  port := 7411
  controllerId := "controller_1".toList
  fingerprint := "sha256:0a".toList
  displayName := none
  interface := none

/-- The advertiser is started, stopped, started and stopped while the first
teardown is under way; then it is started once more. -/
def restarted : List Label :=
  [.start sampleOptions none, .stop false, .start sampleOptions none,
    .stop false, .finish, .stopResolves 0]

def leakedState : State :=
  (machine.run initialState restarted).getD initialState

/-- The second `stop` resolves with its instance live; a further `start` leaves
two live instances. -/
theorem advertiser_leaks :
    machine.Reachable (fun _ _ => True) leakedState ∧
      leakedState.live = [3] ∧ ¬ Kept leakedState ∧
      ∃ two, machine.step leakedState (.start sampleOptions none) = some two ∧
        two.live = [4, 3] ∧ ¬ Kept two := by
  have ran : machine.run initialState restarted = some leakedState := by
    decide +kernel
  have live : leakedState.live = [3] := by decide +kernel
  have resolved : ⟨some 1, true, false⟩ ∈ leakedState.stops := by
    decide +kernel
  have both : (start sampleOptions none leakedState).live = [4, 3] := by
    decide +kernel
  refine ⟨Machine.reachable_of_run rfl ran, live, ?_, _, rfl, both, ?_⟩
  · intro kept
    have empty := (kept.stopped _ resolved rfl rfl).1
    rw [live] at empty
    cases empty
  · intro kept
    have single := kept.single
    rw [both] at single
    exact absurd single (by decide)

end Rbo.Discovery.Advertiser
