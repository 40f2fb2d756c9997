import Mathlib.Data.Int.Order.Basic
import Mathlib.Logic.Function.Basic
import Mathlib.Tactic.SplitIfs

namespace ZoneMinder.Auth

abbrev Addr := List Char

/-- What the session keeps under a name that starts with `AuthHash`. A hash is known by the
call that computed it; the time of generation goes with the slot it was written for. -/
inductive Entry
  | hash (remoteAddr : Addr) (time : ℕ)
  | generatedAt (time : ℕ) (slot : Addr)
  deriving DecidableEq

structure AuthConfig where
  optUseAuth : Bool
  relayHashed : Bool
  hashIps : Bool
  hashTtl : ℕ

/-- The session's variables; `authHash` takes what follows `AuthHash` in the name. -/
structure Session where
  remoteAddr : Option Addr := none
  prevRemoteAddr : Option Addr := none
  prevRemoteAddrAt : ℕ := 0
  authHash : Addr → Option Entry := fun _ ↦ none

structure Request where
  time : ℕ
  addr : Addr
  useRemoteAddr : Bool
  force : Bool

/-- The name of the time of generation is that of a slot as well. -/
def generatedAtName : Addr := ['G', 'e', 'n', 'e', 'r', 'a', 't', 'e', 'd', 'A', 't']

namespace Session

/-- The one previous address is kept, and the hash cached for the one before it is dropped. -/
def displace (s : Session) (addr : Addr) (time : ℕ) : Session :=
  { s with
    authHash :=
      match s.prevRemoteAddr with
      | some prev => if prev ≠ addr then Function.update s.authHash prev none else s.authHash
      | none => s.authHash
    prevRemoteAddr := s.remoteAddr
    prevRemoteAddrAt := time }

def setRemoteAddr (s : Session) (addr : Addr) (time : ℕ) : Session :=
  let s :=
    match s.remoteAddr with
    | some old => if old ≠ [] ∧ old ≠ addr then s.displace addr time else s
    | none => s
  { s with remoteAddr := some addr }

/-- PHP's comparison of the time of generation with the earliest one that will do. -/
def expired (s : Session) (mintime : ℤ) : Bool :=
  match s.authHash generatedAtName with
  | some (.generatedAt time _) => (time : ℤ) < mintime
  | _ => mintime ≠ 0

def mintime (config : AuthConfig) (time : ℕ) : ℤ := time - config.hashTtl * 1800

/-- The address baked into the hash, which names its slot too. -/
def slot (config : AuthConfig) (s : Session) (useRemoteAddr : Bool) : Addr :=
  if useRemoteAddr ∧ config.hashIps then s.remoteAddr.getD [] else []

def writeHash (s : Session) (slot : Addr) (time : ℕ) : Session :=
  { s with
    authHash := Function.update (Function.update s.authHash slot (some (.hash slot time)))
      generatedAtName (some (.generatedAt time slot)) }

/-- Nothing is handed out where hashes are not in use or the user has no name. -/
def generateAuthHash (config : AuthConfig) (username : List Char) (s : Session) (time : ℕ)
    (useRemoteAddr force : Bool) : Session × Option Entry :=
  let s := { s with remoteAddr := some (s.remoteAddr.getD []) }
  if config.optUseAuth ∧ config.relayHashed ∧ username ≠ [] then
    let slot := slot config s useRemoteAddr
    let s :=
      if force ∨ s.authHash slot = none ∨ s.expired (mintime config time) then
        s.writeHash slot time
      else s
    (s, s.authHash slot)
  else (s, none)

def handle (config : AuthConfig) (username : List Char) (s : Session) (r : Request) :
    Session × Option Entry :=
  (s.setRemoteAddr r.addr r.time).generateAuthHash config username r.time r.useRemoteAddr r.force

end Session

open Session

/-- The slot a request asks for. -/
def Request.slot (config : AuthConfig) (r : Request) : Addr :=
  if r.useRemoteAddr ∧ config.hashIps then r.addr else []

/-- What was handed out was computed for the request's slot within half the lifetime. -/
def Fresh (config : AuthConfig) (r : Request) (handed : Option Entry) : Prop :=
  ∀ entry ∈ handed, ∃ time, entry = .hash (r.slot config) time ∧ time ≤ r.time ∧
    r.time - time ≤ config.hashTtl * 1800

/-- The slot's hash is too old, and a later one of another slot keeps the time of generation
young; or the request's address is the name of the time of generation. -/
def Masked (config : AuthConfig) (username : List Char) (s : Session) (r : Request) : Prop :=
  (config.optUseAuth ∧ config.relayHashed ∧ username ≠ []) ∧
    (r.slot config = generatedAtName ∨
      r.force = false ∧ ∃ old young other,
        (s.setRemoteAddr r.addr r.time).authHash (r.slot config) = some (.hash (r.slot config) old) ∧
        (s.setRemoteAddr r.addr r.time).authHash generatedAtName =
          some (.generatedAt young other) ∧
        other ≠ r.slot config ∧ (old : ℤ) < mintime config r.time ∧
        mintime config r.time ≤ young)

/-- Every slot holds a hash of its own address, computed by `now`; the time of generation is
that of the slot it was written for. -/
structure Session.Inv (s : Session) (now : ℕ) : Prop where
  hash : ∀ slot entry, slot ≠ generatedAtName → s.authHash slot = some entry →
    ∃ time ≤ now, entry = .hash slot time
  generatedAt : ∀ entry, s.authHash generatedAtName = some entry →
    ∃ time slot, entry = .generatedAt time slot ∧
      ∀ t, slot ≠ generatedAtName → s.authHash slot = some (.hash slot t) → t = time

variable {config : AuthConfig} {username : List Char} {s : Session} {r : Request} {now : ℕ}

theorem setRemoteAddr_remoteAddr (s : Session) (addr : Addr) (time : ℕ) :
    (s.setRemoteAddr addr time).remoteAddr = some addr := rfl

/-- A new address drops at most one entry. -/
theorem setRemoteAddr_authHash (s : Session) (addr : Addr) (time : ℕ) :
    (s.setRemoteAddr addr time).authHash = s.authHash ∨
      ∃ prev, (s.setRemoteAddr addr time).authHash = Function.update s.authHash prev none := by
  unfold setRemoteAddr
  cases s.remoteAddr with
  | none => exact .inl rfl
  | some old =>
    by_cases hold : old ≠ [] ∧ old ≠ addr
    · simp only [if_pos hold, displace]
      cases s.prevRemoteAddr with
      | none => simp
      | some prev =>
        by_cases hp : prev ≠ addr
        · exact .inr ⟨prev, by simp [hp]⟩
        · exact .inl (by simp [hp])
    · simp [hold]

theorem Session.Inv.setRemoteAddr (h : s.Inv now) (addr : Addr) (time : ℕ) :
    (s.setRemoteAddr addr time).Inv now := by
  -- an entry that is still there was there before
  have hsub : ∀ slot entry, (s.setRemoteAddr addr time).authHash slot = some entry →
      s.authHash slot = some entry := by
    intro slot entry he
    rcases setRemoteAddr_authHash s addr time with hsame | ⟨prev, hprev⟩
    · rwa [hsame] at he
    · rw [hprev, Function.update_apply] at he
      split_ifs at he
      exact he
  constructor
  · intro slot entry hne he
    exact h.hash slot entry hne (hsub slot entry he)
  · intro entry he
    obtain ⟨t, slot, hentry, hslot⟩ := h.generatedAt entry (hsub _ entry he)
    exact ⟨t, slot, hentry, fun t' hne ht' ↦ hslot t' hne (hsub _ _ ht')⟩

theorem Session.Inv.writeHash (h : s.Inv now) {time : ℕ} (hle : now ≤ time) (slot : Addr) :
    (s.writeHash slot time).Inv time := by
  constructor
  · intro b entry hb he
    by_cases hslot : b = slot
    · subst hslot
      refine ⟨time, Nat.le_refl time, ?_⟩
      simpa [Session.writeHash, hb] using he.symm
    · obtain ⟨t, ht, hentry⟩ := h.hash b entry hb (by simpa [Session.writeHash, hb, hslot] using he)
      exact ⟨t, Nat.le_trans ht hle, hentry⟩
  · intro entry he
    refine ⟨time, slot, by simpa [Session.writeHash] using he.symm, ?_⟩
    intro t hne ht
    simpa [Session.writeHash, hne] using ht.symm

theorem Session.Inv.mono (h : s.Inv now) {later : ℕ} (hle : now ≤ later) : s.Inv later where
  hash slot entry hne he := by
    obtain ⟨t, ht, hentry⟩ := h.hash slot entry hne he
    exact ⟨t, Nat.le_trans ht hle, hentry⟩
  generatedAt := h.generatedAt

/-- The two ways to answer a request: from the cache, or with a new hash. -/
theorem handle_cases (config : AuthConfig) (username : List Char) (s : Session) (r : Request)
    (hon : config.optUseAuth ∧ config.relayHashed ∧ username ≠ []) :
    let s' := s.setRemoteAddr r.addr r.time
    (r.force ∨ s'.authHash (r.slot config) = none ∨ s'.expired (mintime config r.time)) ∧
        s.handle config username r =
          (s'.writeHash (r.slot config) r.time,
            (s'.writeHash (r.slot config) r.time).authHash (r.slot config)) ∨
      (r.force = false ∧ s'.authHash (r.slot config) ≠ none ∧
          s'.expired (mintime config r.time) = false) ∧
        s.handle config username r = (s', s'.authHash (r.slot config)) := by
  intro s'
  have hs : ({ s' with remoteAddr := some (s'.remoteAddr.getD []) } : Session) = s' := rfl
  have hslot : Session.slot config s' r.useRemoteAddr = r.slot config := by
    simp [Session.slot, Request.slot, s', setRemoteAddr_remoteAddr]
  unfold Session.handle generateAuthHash
  rw [if_pos hon]
  simp only [show s.setRemoteAddr r.addr r.time = s' from rfl, hs, hslot]
  by_cases hnew : r.force ∨ s'.authHash (r.slot config) = none ∨
      s'.expired (mintime config r.time)
  · left
    simp [hnew]
  · right
    simp only [not_or, Bool.not_eq_true] at hnew
    simp [hnew]

theorem handle_off (hoff : ¬(config.optUseAuth ∧ config.relayHashed ∧ username ≠ [])) :
    s.handle config username r = (s.setRemoteAddr r.addr r.time, none) := by
  unfold Session.handle generateAuthHash
  rw [if_neg hoff]
  rfl

theorem Session.Inv.handle (h : s.Inv now) (hle : now ≤ r.time) :
    (s.handle config username r).1.Inv r.time := by
  have h' := h.setRemoteAddr r.addr r.time
  by_cases hon : config.optUseAuth ∧ config.relayHashed ∧ username ≠ []
  · rcases handle_cases config username s r hon with ⟨-, he⟩ | ⟨-, he⟩ <;> rw [he]
    · exact h'.writeHash hle _
    · exact h'.mono hle
  · rw [handle_off hon]
    exact h'.mono hle

theorem handle_fresh_iff (h : s.Inv now) (hle : now ≤ r.time) :
    Fresh config r (s.handle config username r).2 ↔ ¬Masked config username s r := by
  by_cases hon : config.optUseAuth ∧ config.relayHashed ∧ username ≠ []
  swap
  · rw [handle_off hon]
    exact iff_of_true (by simp [Fresh]) (fun hm ↦ hon hm.1)
  have h' := h.setRemoteAddr r.addr r.time
  by_cases hname : r.slot config = generatedAtName
  · -- what is handed out is the time of generation itself
    have hm : Masked config username s r := ⟨hon, .inl hname⟩
    refine iff_of_false ?_ (not_not.mpr hm)
    intro hf
    rcases handle_cases config username s r hon with ⟨-, he⟩ | ⟨⟨-, hset, -⟩, he⟩ <;>
      rw [he] at hf
    · obtain ⟨time, hentry, -⟩ := hf (.generatedAt r.time (r.slot config))
        (by simp [Session.writeHash, hname])
      simp at hentry
    · obtain ⟨entry, hentry⟩ := Option.ne_none_iff_exists'.mp hset
      obtain ⟨time, hhash, -⟩ := hf entry hentry
      rw [hname] at hentry
      obtain ⟨_, _, hgen, -⟩ := h'.generatedAt entry hentry
      rw [hhash] at hgen
      simp at hgen
  rcases handle_cases config username s r hon with ⟨hnew, he⟩ | ⟨⟨hforce, hset, hexp⟩, he⟩ <;>
    rw [he]
  · refine iff_of_true ?_ ?_
    · intro entry hentry
      refine ⟨r.time, ?_, Nat.le_refl _, by omega⟩
      simpa [Session.writeHash, hname] using hentry.symm
    · rintro ⟨-, hm | ⟨hf, old, young, other, hold, hyoung, -, -, hmin⟩⟩
      · exact hname hm
      · simp only [hf, hold, Session.expired, hyoung] at hnew
        simp at hnew
        omega
  · obtain ⟨entry, hentry⟩ := Option.ne_none_iff_exists'.mp hset
    obtain ⟨old, holdle, rfl⟩ := h'.hash _ entry hname hentry
    have hfresh : Fresh config r (some (.hash (r.slot config) old)) ↔
        r.time - old ≤ config.hashTtl * 1800 := by
      constructor
      · intro hf
        obtain ⟨time, heq, -, hage⟩ := hf _ rfl
        obtain rfl := (Entry.hash.inj heq).2
        exact hage
      · rintro hage entry hentry
        obtain rfl := Option.mem_some_iff.mp hentry
        exact ⟨old, rfl, by omega, hage⟩
    rw [hentry, hfresh]
    cases hgen : (s.setRemoteAddr r.addr r.time).authHash generatedAtName with
    | none =>
      have hzero : mintime config r.time = 0 := by simpa [Session.expired, hgen] using hexp
      refine iff_of_true ?_ ?_
      · unfold mintime at hzero
        omega
      · rintro ⟨-, hm | ⟨-, _, _, _, -, hyoung, -⟩⟩
        · exact hname hm
        · simp [hgen] at hyoung
    | some stamp =>
      obtain ⟨young, other, rfl, hown⟩ := h'.generatedAt stamp hgen
      have hmin : mintime config r.time ≤ young := by
        simpa [Session.expired, hgen] using hexp
      by_cases hother : other = r.slot config
      · have hsame : old = young := by
          apply hown old (by rwa [hother])
          rw [hother]
          exact hentry
        refine iff_of_true ?_ ?_
        · unfold mintime at hmin
          omega
        · rintro ⟨-, hm | ⟨-, _, _, other', -, hyoung, hne, -⟩⟩
          · exact hname hm
          · rw [hgen] at hyoung
            obtain ⟨-, rfl⟩ := Entry.generatedAt.inj (Option.some.inj hyoung)
            exact hne hother
      · have hmask : Masked config username s r ↔ (old : ℤ) < mintime config r.time := by
          constructor
          · rintro ⟨-, hm | ⟨-, old', _, _, hold, -, -, hlt, -⟩⟩
            · exact absurd hm hname
            · rw [hentry] at hold
              obtain ⟨-, rfl⟩ := Entry.hash.inj (Option.some.inj hold)
              exact hlt
          · intro hlt
            exact ⟨hon, .inr ⟨hforce, old, young, other, hentry, hgen, hother, hlt, hmin⟩⟩
        rw [hmask]
        unfold mintime
        omega

/-- Every request of the run is answered with a fresh hash. -/
def AlwaysFresh (config : AuthConfig) (username : List Char) : Session → List Request → Prop
  | _, [] => True
  | s, r :: rs => Fresh config r (s.handle config username r).2 ∧
      AlwaysFresh config username (s.handle config username r).1 rs

/-- No request of the run meets a masked slot. -/
def NeverMasked (config : AuthConfig) (username : List Char) : Session → List Request → Prop
  | _, [] => True
  | s, r :: rs => ¬Masked config username s r ∧
      NeverMasked config username (s.handle config username r).1 rs

theorem alwaysFresh_iff_of_inv {requests : List Request} (h : s.Inv now)
    (hnow : ∀ r ∈ requests, now ≤ r.time) (hsorted : requests.Pairwise (·.time ≤ ·.time)) :
    AlwaysFresh config username s requests ↔ NeverMasked config username s requests := by
  induction requests generalizing s now with
  | nil => exact Iff.rfl
  | cons r rs ih =>
    obtain ⟨hlater, hrs⟩ := List.pairwise_cons.mp hsorted
    have hle : now ≤ r.time := hnow r (by simp)
    exact and_congr (handle_fresh_iff h hle) (ih (h.handle hle) hlater hrs)

theorem Session.Inv.init : ({} : Session).Inv 0 where
  hash := by simp
  generatedAt := by simp

theorem alwaysFresh_iff (config : AuthConfig) (username : List Char) {requests : List Request}
    (hsorted : requests.Pairwise (·.time ≤ ·.time)) :
    AlwaysFresh config username {} requests ↔ NeverMasked config username {} requests :=
  alwaysFresh_iff_of_inv Session.Inv.init (fun _ _ ↦ Nat.zero_le _) hsorted

def twoHours : AuthConfig := ⟨true, true, true, 2⟩

/-- A page asks for its hash, a command for one without an address, and the page once more. -/
def pageAndCommand : List Request :=
  [⟨100000, ['a'], true, false⟩, ⟨100010, ['a'], false, false⟩, ⟨103605, ['a'], true, false⟩]

theorem alwaysFresh_fails :
    ¬∀ (config : AuthConfig) (username : List Char) (requests : List Request),
      1 ≤ config.hashTtl → requests.Pairwise (·.time ≤ ·.time) →
        AlwaysFresh config username {} requests := by
  intro h
  obtain ⟨-, -, hf, -⟩ := h twoHours ['u'] pageAndCommand (by decide) (by decide)
  obtain ⟨time, heq, hle, hage⟩ := hf (.hash ['a'] 100000) (by decide)
  obtain ⟨-, rfl⟩ := Entry.hash.inj heq
  simp [twoHours] at hage

theorem alwaysFresh_page_reload :
    AlwaysFresh twoHours ['u'] {}
      [⟨100000, ['a'], true, false⟩, ⟨103605, ['a'], true, false⟩] := by
  apply (alwaysFresh_iff twoHours ['u'] (by decide)).mpr
  refine ⟨?_, ?_, trivial⟩
  · rintro ⟨-, hname | ⟨-, _, _, _, hold, -⟩⟩
    · exact absurd hname (by decide)
    · simp [Session.setRemoteAddr] at hold
  · rintro ⟨-, hname | ⟨-, _, young, _, -, hyoung, -, -, hmin⟩⟩
    · exact absurd hname (by decide)
    · have hstamp : young = 100000 := by
        have hgen := (Option.some.inj hyoung)
        exact (Entry.generatedAt.inj hgen).1.symm
      subst hstamp
      exact absurd hmin (by decide)

end ZoneMinder.Auth
