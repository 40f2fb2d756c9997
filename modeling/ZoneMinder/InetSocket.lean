import Mathlib.Data.List.Count
import Mathlib.Data.List.Infix
import Mathlib.Data.Nat.Find
import ZoneMinder.Lib.Run

namespace ZoneMinder.InetSocket

open Lib

inductive Family
  | unspec | inet | inet6
  | other (n : ℕ)
  deriving DecidableEq

/-- An address of the list, and whether `socket`, and then `connect` or `bind`, work for it. -/
structure Address where
  aiFamily : Family
  socketWorks : Bool
  callWorks : Bool
  deriving DecidableEq

def Address.works (rp : Address) : Bool := rp.socketWorks && rp.callWorks

/-- The system calls, the addresses by their places in the list. -/
inductive Call
  | socket (address : ℕ) (fd : Option ℕ)
  | setsockopt (fd : ℕ)
  | connect (fd address : ℕ)
  | bind (fd address : ℕ)
  | close (fd : ℕ)
  deriving DecidableEq

namespace Call

/-- The descriptor that a call is made on. -/
def on : Call → Option ℕ
  | socket _ _ => none
  | setsockopt fd | connect fd _ | bind fd _ | close fd => some fd

def opens (fd : ℕ) : Call → Bool
  | socket _ fd' => fd' = some fd
  | _ => false

/-- The open descriptors, each with the address it was opened for. -/
def perform (table : ℕ → Option ℕ) : Call → ℕ → Option ℕ
  | socket address (some fd) => Function.update table fd (some address)
  | close fd => Function.update table fd none
  | _ => table

end Call

/-- What is open after some calls. -/
def openAfter (calls : List Call) : ℕ → Option ℕ := calls.foldl Call.perform fun _ ↦ none

/-- The numbers that new descriptors get; one that is open is not given away. -/
structure Kernel where
  descriptor : List Call → ℕ
  unused : ∀ calls, openAfter calls (descriptor calls) = none

inductive State
  | closed | disconnected | listening | connected
  deriving DecidableEq

/-- No descriptor is -1. -/
structure Socket where
  mSd : Option ℕ
  mState : State
  mAddressFamily : Family
  deriving DecidableEq

structure Result where
  value : Bool
  socket : Socket
  calls : List Call
  deriving DecidableEq

section Source

variable (k : Kernel)

/-- The loop over the addresses from a place on. A call on a descriptor that is not open fails. -/
def connectFrom : (address : ℕ) → List Address → Socket → List Call → Result
  | _, [], s, calls => ⟨false, { s with mAddressFamily := .unspec }, calls⟩
  | i, rp :: rest, s, calls =>
    match s.mSd with
    | some fd =>
      if (openAfter calls fd).isSome && rp.callWorks then
        ⟨true, { s with mState := .connected }, calls ++ [.connect fd i]⟩
      else connectFrom (i + 1) rest s (calls ++ [.connect fd i])
    | none =>
      if rp.socketWorks then
        let fd := k.descriptor calls
        let calls := calls ++ [.socket i (some fd)] ++ [.setsockopt fd] ++ [.setsockopt fd] ++
          [.connect fd i]
        let s := { s with mSd := some fd, mAddressFamily := rp.aiFamily }
        if rp.callWorks then ⟨true, { s with mState := .connected }, calls⟩
        else connectFrom (i + 1) rest s (calls ++ [.close fd])
      else connectFrom (i + 1) rest s (calls ++ [.socket i none])

/-- No addresses where `getaddrinfo` fails. -/
def connect (addresses : Option (List Address)) (s : Socket) : Result :=
  let s := { s with mAddressFamily := .unspec }
  match addresses with
  | none => ⟨false, s, []⟩
  | some addresses => connectFrom k 0 addresses s []

def bindFrom : (address : ℕ) → List Address → Socket → List Call → Result
  | _, [], s, calls => ⟨false, s, calls⟩
  | i, rp :: rest, s, calls =>
    if rp.socketWorks then
      let fd := k.descriptor calls
      let calls := calls ++ [.socket i (some fd)] ++ [.setsockopt fd] ++ [.bind fd i]
      let s := { s with mSd := some fd, mState := .disconnected }
      if rp.callWorks then ⟨true, s, calls⟩
      else bindFrom (i + 1) rest { s with mSd := none } (calls ++ [.close fd])
    else bindFrom (i + 1) rest { s with mSd := none } (calls ++ [.socket i none])

def bind (addresses : Option (List Address)) (s : Socket) : Result :=
  match addresses with
  | none => ⟨false, s, []⟩
  | some addresses => bindFrom k 0 addresses s []

end Source

/-- A socket object without a descriptor. -/
def unopened (state : State) (family : Family) : Socket := ⟨none, state, family⟩

/-- A call is made on a descriptor that is open. -/
def OnOpen (before : List Call) (call : Call) : Prop :=
  ∀ fd ∈ call.on, (openAfter before fd).isSome

/-- Every address was tried: the result is true if one of them works, the descriptor is the one
for the first that does, and otherwise there is none; all calls were on open descriptors, and as
often as a descriptor was opened for another address it was closed. -/
structure TriesAll (addresses : List Address) (r : Result) : Prop where
  value : r.value = addresses.any Address.works
  held : r.value → ∃ fd, r.socket.mSd = some fd ∧
    openAfter r.calls fd = some (addresses.findIdx Address.works)
  opened : Along OnOpen r.calls
  closed : ∀ fd, r.calls.countP (Call.opens fd) =
    r.calls.count (.close fd) + if r.value ∧ r.socket.mSd = some fd then 1 else 0
  released : r.value = false → r.socket.mSd = none

@[simp] theorem openAfter_concat {calls : List Call} {call : Call} :
    openAfter (calls ++ [call]) = call.perform (openAfter calls) := by
  rw [openAfter, List.foldl_append]
  rfl

/-- From some number on no descriptor is open. -/
theorem exists_unused_from (calls : List Call) :
    ∃ bound, ∀ fd, bound ≤ fd → openAfter calls fd = none := by
  induction calls using List.reverseRecOn with
  | nil => exact ⟨0, fun _ _ ↦ rfl⟩
  | append_singleton calls call ih =>
    obtain ⟨bound, hbound⟩ := ih
    simp only [openAfter_concat]
    cases call with
    | socket address fd =>
      cases fd with
      | none => exact ⟨bound, hbound⟩
      | some fd =>
        refine ⟨max bound (fd + 1), fun fd' hfd ↦ ?_⟩
        rw [Call.perform, Function.update_of_ne (by omega)]
        exact hbound fd' ((le_max_left _ _).trans hfd)
    | close fd =>
      refine ⟨bound, fun fd' hfd ↦ ?_⟩
      rw [Call.perform, Function.update_apply, hbound fd' hfd, ite_self]
    | _ => exact ⟨bound, hbound⟩

theorem exists_unused (calls : List Call) : ∃ fd, openAfter calls fd = none := by
  obtain ⟨bound, hbound⟩ := exists_unused_from calls
  exact ⟨bound, hbound bound le_rfl⟩

/-- The lowest number that is not in use. -/
def Kernel.lowest : Kernel where
  descriptor calls := Nat.find (exists_unused calls)
  unused calls := Nat.find_spec (exists_unused calls)

section Trying

variable {k : Kernel} {calls : List Call} {call : Call} {s : Socket} {addresses rest : List Address}
  {rp : Address} {fd i : ℕ} {state : State} {family : Family}

/-- All descriptors have been closed. -/
structure Settled (calls : List Call) : Prop where
  none_open : ∀ fd, openAfter calls fd = none
  opened : Along OnOpen calls
  closed : ∀ fd, calls.countP (Call.opens fd) = calls.count (.close fd)

/-- One descriptor is open, for an address. -/
structure Held (calls : List Call) (fd i : ℕ) : Prop where
  only : openAfter calls = Function.update (fun _ ↦ none) fd (some i)
  opened : Along OnOpen calls
  closed : ∀ fd', calls.countP (Call.opens fd') =
    calls.count (.close fd') + if fd = fd' then 1 else 0

theorem settled_nil : Settled [] := ⟨fun _ ↦ rfl, along_nil, fun _ ↦ rfl⟩

theorem Settled.refused (h : Settled calls) (i : ℕ) : Settled (calls ++ [.socket i none]) where
  none_open fd := by
    rw [openAfter_concat]
    exact h.none_open fd
  opened := along_concat.mpr ⟨h.opened, fun fd hfd ↦ by cases hfd⟩
  closed fd := by simp [Call.opens, h.closed fd, List.countP_append]

theorem Settled.opens (h : Settled calls) (i fd : ℕ) :
    Held (calls ++ [.socket i (some fd)]) fd i where
  only := by
    rw [openAfter_concat, show openAfter calls = fun _ ↦ none from funext h.none_open]
    rfl
  opened := along_concat.mpr ⟨h.opened, fun fd hfd ↦ by cases hfd⟩
  closed fd' := by simp [Call.opens, h.closed fd', List.countP_append, List.countP_cons]

/-- A call on the descriptor that leaves it open. -/
theorem Held.use (h : Held calls fd i) (call : Call) (hon : call.on = some fd)
    (hclose : call ≠ .close fd) :
    Held (calls ++ [call]) fd i := by
  have hkeep : call.perform (openAfter calls) = openAfter calls := by
    cases call with
    | close fd' => exact absurd (congrArg Call.close (Option.some.inj hon)) hclose
    | socket address fd' => cases hon
    | _ => rfl
  have hopens (fd' : ℕ) : call.opens fd' = false := by
    cases call with
    | socket address fd' => cases hon
    | _ => rfl
  have hcount (fd' : ℕ) : call ≠ .close fd' := by
    rintro rfl
    exact hclose (congrArg Call.close (Option.some.inj hon))
  refine ⟨by rw [openAfter_concat, hkeep, h.only], along_concat.mpr ⟨h.opened, ?_⟩, fun fd' ↦ ?_⟩
  · intro fd' hfd'
    obtain rfl : fd = fd' := Option.some.inj (hon.symm.trans hfd')
    rw [h.only, Function.update_self]
    rfl
  · simp [List.countP_append, List.count_append, hopens fd', hcount fd', h.closed fd']

theorem Held.close (h : Held calls fd i) : Settled (calls ++ [.close fd]) where
  none_open fd' := by
    rw [openAfter_concat, h.only, Call.perform, Function.update_idem,
      Function.update_eq_self_iff.mpr rfl]
  opened := along_concat.mpr ⟨h.opened, fun fd' hfd' ↦ by
    obtain rfl : fd = fd' := Option.some.inj hfd'
    rw [h.only, Function.update_self]
    rfl⟩
  closed fd' := by
    by_cases hfd : fd = fd' <;>
      simp [List.countP_append, List.count_append, Call.opens, h.closed fd', hfd]

/-- How a loop that keeps to its descriptors ends, from a place on. -/
inductive Ended (i : ℕ) (addresses : List Address) (r : Result) : Prop
  | works {fd : ℕ} (hvalue : r.value = true) (hany : addresses.any Address.works = true)
    (hfd : r.socket.mSd = some fd) (hheld : Held r.calls fd (i + addresses.findIdx Address.works))
  | fails (hvalue : r.value = false) (hany : addresses.any Address.works = false)
    (hfd : r.socket.mSd = none) (hsettled : Settled r.calls)

/-- An address that does not work is passed by. -/
theorem Ended.pass {r : Result} (h : Ended (i + 1) rest r) (hrp : rp.works = false) :
    Ended i (rp :: rest) r := by
  cases h with
  | works hvalue hany hfd hheld =>
    refine .works hvalue (by rw [List.any_cons, hany, Bool.or_true]) hfd ?_
    rwa [List.findIdx_cons, hrp, cond_false, ← Nat.add_assoc, Nat.add_right_comm]
  | fails hvalue hany hfd hsettled =>
    exact .fails hvalue (by rw [List.any_cons, hany, hrp, Bool.or_false]) hfd hsettled

theorem Ended.tries {r : Result} (h : Ended 0 addresses r) : TriesAll addresses r := by
  cases h with
  | @works fd hvalue hany hfd hheld =>
    rw [Nat.zero_add] at hheld
    refine ⟨hvalue.trans hany.symm, fun _ ↦ ⟨fd, hfd, by rw [hheld.only, Function.update_self]⟩,
      hheld.opened, fun fd' ↦ ?_, fun hfalse ↦ ?_⟩
    · rw [hheld.closed fd', hvalue, hfd]
      simp
    · rw [hvalue] at hfalse
      cases hfalse
  | fails hvalue hany hfd hsettled =>
    refine ⟨hvalue.trans hany.symm, fun htrue ↦ ?_, hsettled.opened, fun fd' ↦ ?_, fun _ ↦ hfd⟩
    · rw [hvalue] at htrue
      cases htrue
    · rw [hsettled.closed fd', hvalue]
      simp

theorem bindFrom_ended (h : Settled calls) (hs : s.mSd = none) :
    Ended i addresses (bindFrom k i addresses s calls) := by
  induction addresses generalizing i s calls with
  | nil => exact .fails rfl rfl hs h
  | cons rp rest ih =>
    rw [bindFrom]
    by_cases hsocket : rp.socketWorks
    · have hheld := ((h.opens i (k.descriptor calls)).use (.setsockopt _) rfl nofun).use
        (.bind _ i) rfl nofun
      rw [if_pos hsocket]
      by_cases hcall : rp.callWorks
      · have hworks : rp.works = true := by rw [Address.works, hsocket, hcall]; rfl
        simp only [hcall, if_true]
        refine .works rfl (by rw [List.any_cons, hworks, Bool.true_or]) rfl ?_
        rwa [List.findIdx_cons, hworks, cond_true, Nat.add_zero]
      · have hworks : rp.works = false := by simp [Address.works, hcall]
        simp only [hcall, if_false, Bool.false_eq_true]
        exact (ih hheld.close rfl).pass hworks
    · have hworks : rp.works = false := by simp [Address.works, hsocket]
      rw [if_neg hsocket]
      exact (ih (h.refused i) rfl).pass hworks

/-- What is left in `mSd` after an attempt has failed. -/
theorem connectFrom_stale (k : Kernel) (i : ℕ) (rest : List Address) (s : Socket)
    (calls : List Call) (hfd : openAfter calls fd = none) (hs : s.mSd = some fd) :
    (connectFrom k i rest s calls).value = false ∧
      (connectFrom k i rest s calls).socket.mSd = some fd := by
  induction rest generalizing i calls with
  | nil => exact ⟨rfl, hs⟩
  | cons rp rest ih =>
    rw [connectFrom, hs]
    simp only [hfd, Option.isSome_none, Bool.false_and, if_false, Bool.false_eq_true]
    refine ih _ _ ?_
    rw [openAfter_concat]
    exact hfd

/-- The first address that a socket can be had for, if there is one, is connected to. -/
def FirstConnects (addresses : List Address) : Prop :=
  ∀ rp ∈ addresses.find? Address.socketWorks, rp.callWorks

instance (addresses : List Address) : Decidable (FirstConnects addresses) :=
  inferInstanceAs (Decidable (∀ rp ∈ addresses.find? Address.socketWorks, rp.callWorks))

theorem connectFrom_ended (h : Settled calls) (hs : s.mSd = none)
    (hfirst : FirstConnects addresses) : Ended i addresses (connectFrom k i addresses s calls) := by
  induction addresses generalizing i s calls with
  | nil => exact .fails rfl rfl hs h
  | cons rp rest ih =>
    rw [connectFrom, hs]
    by_cases hsocket : rp.socketWorks
    · have hcall : rp.callWorks = true := hfirst rp (by rw [List.find?_cons_of_pos hsocket]; rfl)
      have hheld := (((h.opens i (k.descriptor calls)).use (.setsockopt _) rfl nofun).use
        (.setsockopt _) rfl nofun).use (.connect _ i) rfl nofun
      have hworks : rp.works = true := by rw [Address.works, hsocket, hcall]; rfl
      simp only [hsocket, hcall, if_true]
      refine .works rfl (by rw [List.any_cons, hworks, Bool.true_or]) rfl ?_
      rwa [List.findIdx_cons, hworks, cond_true, Nat.add_zero]
    · have hworks : rp.works = false := by simp [Address.works, hsocket]
      simp only [hsocket, if_false, Bool.false_eq_true]
      refine (ih (h.refused i) hs ?_).pass hworks
      rw [FirstConnects, List.find?_cons_of_neg hsocket] at hfirst
      exact hfirst

theorem connectFrom_keeps (k : Kernel) (i : ℕ) (s : Socket) (calls : List Call)
    (hs : s.mSd = none) (hfirst : ¬ FirstConnects addresses) :
    (connectFrom k i addresses s calls).value = false ∧
      (connectFrom k i addresses s calls).socket.mSd.isSome := by
  induction addresses generalizing i s calls with
  | nil => exact absurd (fun rp hrp ↦ by cases hrp) hfirst
  | cons rp rest ih =>
    rw [connectFrom, hs]
    by_cases hsocket : rp.socketWorks
    · rw [FirstConnects, List.find?_cons_of_pos hsocket] at hfirst
      have hcall : rp.callWorks = false := by
        rw [Bool.eq_false_iff]
        exact fun hcall ↦ hfirst fun rp' hrp ↦ Option.some.inj hrp ▸ hcall
      simp only [hsocket, hcall, if_true, if_false, Bool.false_eq_true]
      obtain ⟨hvalue, hfd⟩ := connectFrom_stale k (i + 1) rest
        { s with mSd := some (k.descriptor calls), mAddressFamily := rp.aiFamily }
        (calls ++ [.socket i (some (k.descriptor calls))] ++
          [.setsockopt (k.descriptor calls)] ++ [.setsockopt (k.descriptor calls)] ++
          [.connect (k.descriptor calls) i] ++ [.close (k.descriptor calls)])
        (by rw [openAfter_concat]; exact Function.update_self ..) rfl
      exact ⟨hvalue, by rw [hfd]; rfl⟩
    · rw [FirstConnects, List.find?_cons_of_neg hsocket] at hfirst
      simp only [hsocket, if_false, Bool.false_eq_true]
      exact ih _ _ _ hs hfirst

/-- Bind tries every address. Connect does exactly if the first address for which it gets a socket
works: a descriptor that it has closed stays where an open one would be. -/
theorem triesAll_iff (k : Kernel) (addresses others : List Address) (state : State)
    (family : Family) :
    TriesAll addresses (connect k (some addresses) (unopened state family)) ∧
        TriesAll others (bind k (some others) (unopened state family)) ↔
      FirstConnects addresses := by
  constructor
  · rintro ⟨h, -⟩
    by_contra hfirst
    obtain ⟨hvalue, hfd⟩ := connectFrom_keeps k 0 (unopened state .unspec) [] rfl hfirst
    have hreleased : (connectFrom k 0 addresses (unopened state .unspec) []).socket.mSd = none :=
      h.released hvalue
    rw [hreleased] at hfd
    cases hfd
  · intro hfirst
    exact ⟨(connectFrom_ended settled_nil rfl hfirst).tries, (bindFrom_ended settled_nil rfl).tries⟩

/-- The first address is refused, and the second would do. -/
theorem not_triesAll_connect : ¬ TriesAll [⟨.inet6, true, false⟩, ⟨.inet, true, true⟩]
    (connect .lowest (some [⟨.inet6, true, false⟩, ⟨.inet, true, true⟩])
      (unopened .closed .unspec)) := by
  intro h
  have hfirst : ¬ FirstConnects [⟨.inet6, true, false⟩, ⟨.inet, true, true⟩] := by decide
  have hvalue := (connectFrom_keeps .lowest 0 (unopened .closed .unspec) [] rfl hfirst).1
  exact Bool.false_ne_true (hvalue.symm.trans h.value)

end Trying

end ZoneMinder.InetSocket
