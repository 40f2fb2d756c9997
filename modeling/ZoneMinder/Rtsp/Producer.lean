import ZoneMinder.Rtsp.MonitorStream
import Mathlib.Data.List.Basic
import Mathlib.Data.List.Induction
import Mathlib.Data.List.TakeWhile

namespace ZoneMinder.Rtsp

open StreamSocket RtspSessionTracker MonitorRtspStream

structure Hello where
  stream : StreamId
  info : HelloInfo
  generation : UInt32

namespace Op

def isHello : Op → Bool
  | .hello .. => true
  | _ => false

def isUpdate : Op → Bool
  | .update _ => true
  | _ => false

/-- The producer announces its video and its audio, and nothing else. -/
def OfMedia : Op → Prop
  | .hello stream _ _ => stream ≠ .monitor
  | _ => True

end Op

def announce (hellos : List Hello) : Op → List Hello
  | .hello stream info generation => ⟨stream, info, generation⟩ :: hellos
  | .disconnect => []
  | .update _ => hellos

/-- The HELLOs since the last disconnect, newest first. -/
def announced (ops : List Op) : List Hello := ops.foldl announce []

@[simp] theorem announced_concat (ops : List Op) (op : Op) :
    announced (ops ++ [op]) = announce (announced ops) op := by
  simp [announced]

/-- The newest HELLOs that share one generation. -/
def helloSet : List Hello → List Hello
  | [] => []
  | hello :: hellos => hello :: hellos.takeWhile (fun h ↦ h.generation = hello.generation)

def latest (stream : StreamId) (hellos : List Hello) : Option HelloInfo :=
  ((helloSet hellos).find? (fun h ↦ h.stream = stream)).map Hello.info

def SameParameters : Option HelloInfo → Option HelloInfo → Prop :=
  Option.Rel (fun a b ↦ helloEqual a b)

def head (hellos : List Hello) : Option UInt32 := hellos.head?.map Hello.generation

theorem helloSet_cons_same {hello h : Hello} {hellos : List Hello}
    (he : h.generation = hello.generation) :
    helloSet (hello :: h :: hellos) = hello :: helloSet (h :: hellos) := by
  simp [helloSet, he]

theorem helloSet_cons_new {hello : Hello} {hellos : List Hello}
    (hn : ∀ h ∈ hellos.head?, h.generation ≠ hello.generation) :
    helloSet (hello :: hellos) = [hello] := by
  cases hellos with
  | nil => rfl
  | cons h hellos =>
    have hne : h.generation ≠ hello.generation := hn h rfl
    simp [helloSet, hne]

theorem generation_of_mem_helloSet {h k : Hello} {hellos : List Hello}
    (hk : hellos.head? = some k) (h' : h ∈ helloSet hellos) : h.generation = k.generation := by
  cases hellos with
  | nil => simp at hk
  | cons a hellos =>
    obtain rfl : a = k := by simpa using hk
    rcases List.mem_cons.mp h' with rfl | hm
    · rfl
    · simpa using List.mem_takeWhile_imp hm

theorem latest_cons (stream : StreamId) (hello : Hello) (hellos : List Hello) :
    latest stream (hello :: hellos) =
      if hello.stream = stream then some hello.info
      else if head hellos = some hello.generation then latest stream hellos else none := by
  by_cases hs : hello.stream = stream
  · simp [latest, helloSet, hs]
  · by_cases hg : head hellos = some hello.generation
    · cases hellos with
      | nil => simp [head] at hg
      | cons h hellos =>
        have he : h.generation = hello.generation := by simpa [head] using hg
        simp [latest, helloSet_cons_same he, hs, hg]
    · have hn : helloSet (hello :: hellos) = [hello] := by
        apply helloSet_cons_new
        intro h hh he
        exact hg (by simp [head, Option.mem_def.mp hh, he])
      simp [latest, hn, hs, hg]

/-- What the tracker records is what was announced, and a confirmed session was built
from the announced parameters. -/
structure Reconciled (hellos : List Hello) (s : MonitorRtspStream) : Prop where
  generation : head hellos =
    if s.tracker.haveGeneration then some s.tracker.latestGeneration else none
  video : latest .video hellos =
    if s.tracker.havePendingVideo then some s.tracker.pendingVideo else none
  audio : latest .audio hellos =
    if s.tracker.havePendingAudio then some s.tracker.pendingAudio else none
  session : s.session.map (fun m ↦ (m.video, m.audio)) =
    if s.tracker.haveBuilt then
      some (s.tracker.builtVideo,
        if s.tracker.builtWithAudio then some s.tracker.builtAudio else none)
    else none
  confirmed : s.tracker.confirmed → s.tracker.haveBuilt ∧ s.tracker.havePendingVideo ∧
    s.tracker.pendingMatchesBuilt ∧ s.tracker.builtGeneration = s.tracker.latestGeneration

variable {monitor : UInt32 × UInt32} {s : MonitorRtspStream} {hellos : List Hello}

theorem Reconciled.init : Reconciled [] {} := by
  constructor <;> simp [head, latest, helloSet]

theorem Reconciled.hello (h : Reconciled hellos s) {stream : StreamId} (hm : stream ≠ .monitor)
    (info : HelloInfo) (generation : UInt32) :
    Reconciled (⟨stream, info, generation⟩ :: hellos)
      { s with tracker := s.tracker.onHello stream info generation } := by
  have hg := h.generation
  have hv := h.video
  have ha := h.audio
  have hb := h.session
  by_cases hsame : head hellos = some generation
  · have hstart : s.tracker.startGeneration generation = s.tracker := by
      rw [hsame] at hg
      cases hgen : s.tracker.haveGeneration <;> simp_all [startGeneration]
    have hhave : s.tracker.haveGeneration = true ∧ s.tracker.latestGeneration = generation := by
      rw [hsame] at hg
      cases hgen : s.tracker.haveGeneration <;> simp_all
    cases stream with
    | video =>
      constructor <;> simp_all [onHello, latest_cons, head]
    | audio =>
      constructor <;> simp_all [onHello, latest_cons, head]
    | monitor => exact absurd rfl hm
  · have hstart : s.tracker.startGeneration generation =
        { s.tracker with
          latestGeneration := generation
          haveGeneration := true
          havePendingVideo := false
          havePendingAudio := false } := by
      rw [hg] at hsame
      cases hgen : s.tracker.haveGeneration <;> simp_all [startGeneration] 
      intro he
      exact absurd he.symm hsame
    cases stream with
    | video =>
      constructor <;> simp_all [onHello, latest_cons, head]
    | audio =>
      constructor <;> simp_all [onHello, latest_cons, head]
    | monitor => exact absurd rfl hm

theorem Reconciled.disconnect (h : Reconciled hellos s) :
    Reconciled [] { s with tracker := s.tracker.onDisconnect } where
  generation := by simp [onDisconnect, head]
  video := by simp [onDisconnect, latest, helloSet]
  audio := by simp [onDisconnect, latest, helloSet]
  session := h.session
  confirmed := by simp [onDisconnect]

theorem Reconciled.update (h : Reconciled hellos s) (created : Bool) :
    Reconciled hellos (s.update monitor created) := by
  rcases update_cases monitor created s with ⟨hp, he⟩ | ⟨hp, he⟩ | ⟨hp, he⟩ | ⟨hp, he⟩ <;> rw [he]
  · exact h
  · obtain ⟨hv, -, hb, hm, -⟩ := plan_eq_adopt.mp hp
    exact ⟨h.generation, h.video, h.audio, h.session, fun _ ↦ ⟨hb, hv, hm, rfl⟩⟩
  · exact ⟨h.generation, h.video, h.audio, by simp, by simp⟩
  · obtain ⟨hv, -, -⟩ := plan_eq_rebuild.mp hp
    refine ⟨h.generation, h.video, h.audio, ?_, fun _ ↦ ⟨rfl, hv, ?_, rfl⟩⟩
    · rfl
    · simp [markBuilt, pendingMatchesBuilt]

theorem Reconciled.step (h : Reconciled hellos s) {op : Op} (hop : op.OfMedia) :
    Reconciled (announce hellos op) (s.step monitor op) := by
  cases op with
  | hello stream info generation => exact h.hello hop info generation
  | disconnect => exact h.disconnect
  | update created => exact h.update created

theorem reconciled_run {ops : List Op} (hops : ∀ op ∈ ops, op.OfMedia) :
    Reconciled (announced ops) (run monitor ops) := by
  induction ops using List.reverseRecOn with
  | nil => exact Reconciled.init
  | append_singleton ops op ih =>
    rw [announced_concat, run_concat]
    apply Reconciled.step
    · apply ih
      intro o ho
      exact hops o (by simp [ho])
    · exact hops op (by simp)

/-- The pass made after `before` asked for a session, got it or kept it, and confirmed it. -/
def Confirms (monitor : UInt32 × UInt32) (before : List Op) (created : Bool) : Prop :=
  (run monitor before).tracker.plan (run monitor before).session.isSome ≠ .none ∧
    ((run monitor before).update monitor created).session.isSome

/-- A confirmed session was confirmed by a pass that no HELLO and no disconnect followed. -/
theorem confirmed_by_pass {ops : List Op} (hops : ∀ op ∈ ops, op.OfMedia)
    (hc : (run monitor ops).tracker.confirmed) :
    ∃ before created after, ops = before ++ .update created :: after ∧
      (∀ op ∈ after, op.isUpdate) ∧ Confirms monitor before created := by
  induction ops using List.reverseRecOn with
  | nil => simp [run] at hc
  | append_singleton ops op ih =>
    have hops' : ∀ o ∈ ops, o.OfMedia := by
      intro o ho
      exact hops o (by simp [ho])
    have hlast : op.OfMedia := hops op (by simp)
    rw [run_concat] at hc
    cases op with
    | hello stream info generation =>
      cases stream with
      | video => simp [MonitorRtspStream.step, onHello] at hc
      | audio => simp [MonitorRtspStream.step, onHello] at hc
      | monitor => exact absurd rfl hlast
    | disconnect => simp [MonitorRtspStream.step, onDisconnect] at hc
    | update created =>
      by_cases hold : (run monitor ops).tracker.confirmed
      · obtain ⟨before, created', after, he, ha, hcon⟩ := ih hops' hold
        refine ⟨before, created', after ++ [.update created], by simp [he], ?_, hcon⟩
        intro o ho
        rcases List.mem_append.mp ho with ho | ho
        · exact ha o ho
        · obtain rfl := List.mem_singleton.mp ho
          rfl
      · refine ⟨ops, created, [], by simp, by simp, ?_⟩
        rcases update_cases monitor created (run monitor ops) with
          ⟨hp, he⟩ | ⟨hp, he⟩ | ⟨hp, he⟩ | ⟨hp, he⟩
        · rw [MonitorRtspStream.step, he] at hc
          exact absurd hc hold
        · exact ⟨by simp [hp], by rw [he]; exact (plan_eq_adopt.mp hp).2.1⟩
        · simp [MonitorRtspStream.step, he] at hc
        · exact ⟨by simp [hp], by rw [he]; rfl⟩

/-- The session serves what the producer last announced, in generation `generation`. -/
structure Serves (monitor : UInt32 × UInt32) (ops : List Op) (generation : UInt32) : Prop where
  video : ∃ hello ∈ helloSet (announced ops), hello.stream = .video
  generation : ∀ hello ∈ helloSet (announced ops), hello.generation = generation
  built : ∃ session, (run monitor ops).session = some session ∧
    SameParameters (some session.video) (latest .video (announced ops)) ∧
    SameParameters session.audio (latest .audio (announced ops))
  confirmed : ∃ before created after, ops = before ++ .update created :: after ∧
    (∀ op ∈ after, op.isUpdate) ∧ Confirms monitor before created

theorem Reconciled.built (h : Reconciled hellos s) (hc : s.tracker.confirmed) :
    ∃ session, s.session = some session ∧
      SameParameters (some session.video) (latest .video hellos) ∧
      SameParameters session.audio (latest .audio hellos) := by
  obtain ⟨hb, hv, hm, -⟩ := h.confirmed hc
  have hs := h.session
  rw [if_pos hb] at hs
  obtain ⟨session, hsess, hpair⟩ := Option.map_eq_some_iff.mp hs
  obtain ⟨hvideo, haudio⟩ := Prod.mk.inj hpair
  simp only [pendingMatchesBuilt, Bool.and_eq_true, beq_iff_eq, Bool.or_eq_true,
    Bool.not_eq_true'] at hm
  obtain ⟨⟨hmv, hma⟩, hme⟩ := hm
  refine ⟨session, hsess, ?_, ?_⟩
  · rw [h.video, if_pos hv, hvideo]
    exact .some hmv
  · rw [h.audio, haudio, hma]
    cases hw : s.tracker.builtWithAudio with
    | false => exact .none
    | true =>
      rcases hme with hn | he
      · simp [hma, hw] at hn
      · exact .some he

theorem serves_of_accepts {ops : List Op} (hops : ∀ op ∈ ops, op.OfMedia) {generation : UInt32}
    (hacc : (run monitor ops).tracker.accepts generation) : Serves monitor ops generation := by
  have h : Reconciled (announced ops) (run monitor ops) := reconciled_run hops
  obtain ⟨hc, -, hg⟩ := accepts_iff.mp hacc
  obtain ⟨-, hv, -, hgen⟩ := h.confirmed hc
  have hvideo := h.video
  rw [if_pos hv] at hvideo
  obtain ⟨hello, hfind, -⟩ := Option.map_eq_some_iff.mp hvideo
  refine ⟨⟨hello, List.mem_of_find?_eq_some hfind, by simpa using List.find?_some hfind⟩,
    ?_, h.built hc, confirmed_by_pass hops hc⟩
  intro k hk
  have hhead := h.generation
  cases ha : announced ops with
  | nil => simp [ha, helloSet] at hk
  | cons first rest =>
    have hk' : k.generation = first.generation :=
      generation_of_mem_helloSet rfl (by rwa [ha] at hk)
    have hne : head (announced ops) = some first.generation := by simp [head, ha]
    rw [hne] at hhead
    have hlatest : first.generation = (run monitor ops).tracker.latestGeneration := by
      cases hh : (run monitor ops).tracker.haveGeneration <;> simp_all
    rw [hk', hlatest, hg, hgen]

theorem plan_ne_rebuild_of_not_hello (s : MonitorRtspStream) {op : Op} (hop : op.isHello = false) :
    (s.step monitor op).tracker.plan (s.step monitor op).session.isSome ≠ .rebuild := by
  cases op with
  | hello stream info generation => simp [Op.isHello] at hop
  | disconnect => simp [MonitorRtspStream.step, onDisconnect, plan]
  | update created =>
    rw [MonitorRtspStream.step, plan_update]
    simp

/-- After a pass no later one tears the session down unless a HELLO came in between. -/
theorem plan_ne_rebuild_after_pass (before : List Op) (created : Bool) {after : List Op}
    (ha : ∀ op ∈ after, op.isHello = false) :
    (run monitor (before ++ .update created :: after)).tracker.plan
      (run monitor (before ++ .update created :: after)).session.isSome ≠ .rebuild := by
  -- a pass leaves nothing to do and a disconnect leaves nothing to build, so the last step decides
  rcases List.eq_nil_or_concat' after with rfl | ⟨after, op, rfl⟩
  · rw [run_concat]
    exact plan_ne_rebuild_of_not_hello _ rfl
  · have hassoc : before ++ .update created :: (after ++ [op]) =
        (before ++ .update created :: after) ++ [op] := by simp
    rw [hassoc, run_concat]
    exact plan_ne_rebuild_of_not_hello _ (ha op (by simp))

theorem session_matches_producer (monitor : UInt32 × UInt32) {ops : List Op}
    (hops : ∀ op ∈ ops, op.OfMedia) :
    (∀ generation, (run monitor ops).tracker.accepts generation →
      Serves monitor ops generation) ∧
    ∀ before created after, ops = before ++ .update created :: after →
      (∀ op ∈ after, op.isHello = false) →
      (run monitor ops).tracker.plan (run monitor ops).session.isSome ≠ .rebuild := by
  refine ⟨fun generation h ↦ serves_of_accepts hops h, ?_⟩
  rintro before created after rfl ha
  exact plan_ne_rebuild_after_pass before created ha

def h264 : HelloInfo where
  codecId := .h264
  width := 640
  height := 480

/-- A producer restarts with the parameters it had and the session is adopted. -/
def restarted : List Op :=
  [.hello .video h264 3, .update true, .disconnect, .hello .video h264 0, .update true]

theorem session_matches_producer_restarted :
    (run (1920, 1080) restarted).tracker.accepts 0 ∧ Serves (1920, 1080) restarted 0 := by
  have hops : ∀ op ∈ restarted, op.OfMedia := by simp [restarted, Op.OfMedia]
  have hacc : (run (1920, 1080) restarted).tracker.accepts 0 := by decide
  exact ⟨hacc, (session_matches_producer (1920, 1080) hops).1 0 hacc⟩

end ZoneMinder.Rtsp
