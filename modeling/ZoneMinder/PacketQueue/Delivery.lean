import ZoneMinder.PacketQueue.Unread

namespace ZoneMinder.PacketQueue

open Lib Queue

/-- What became of a packet that a reader's iterator was to come to. -/
inductive Fate
  | read | trimmed | skipped
  deriving DecidableEq

/-- A thread that reads the queue through an iterator: whether it holds a packet that it has not
stepped over yet, what became of the packets up to now, and whether a packet ever came to a queue
that was full. -/
structure Reader where
  queue : Queue
  held : Bool := false
  log : List (Packet × Fate) := []
  crowded : Bool := false

/-- The reader gets a packet and steps over it in two calls, and anything may happen between. -/
inductive Call
  | get (locked : Bool)
  | advance (wait : Bool)
  | other (op : Op)

namespace Reader

def last? (r : Reader) : Option Packet := r.log.getLast?.map Prod.fst

def pending (id : ℕ) (r : Reader) : List Packet :=
  match r.queue.unread id with
  | [] => []
  | p :: rest => if r.last? = some p then rest else p :: rest

def note (fate : Fate) (packets : List Packet) (r : Reader) : Reader :=
  { r with log := r.log ++ packets.map (·, fate) }

/-- get_packet or get_packet_no_wait. `locked` is whether trylock succeeded and the reader keeps the
packet. -/
def get (id : ℕ) (locked : Bool) (r : Reader) : Reader :=
  if r.queue.deleting || r.queue.zmTerminate || !locked then r
  else { r.note .read ((r.queue.unread id).take 1) with held := r.queue.unread id ≠ [] }

/-- increment_it steps over the packet under the iterator, whichever that is by now. -/
def advance (id : ℕ) (wait : Bool) (r : Reader) : Option Reader :=
  if r.queue.deleting || wait && r.queue.zmTerminate then some { r with held := false }
  else if r.queue.unread id = [] then some { r with held := wait }
  else
    (incrementIt id wait r.queue).map fun queue ↦
      { r.note .skipped ((r.queue.unread id).take 1 |>.filter (r.last? ≠ some ·)) with
        queue := queue
        held := false }

def other (id : ℕ) (op : Op) (r : Reader) : Option Reader :=
  (PacketQueue.step r.queue op).map fun queue ↦
    { r.note .trimmed ((r.pending id).filter (· ∉ queue.pktQueue)) with
      queue := queue
      crowded := r.crowded || !r.queue.roomy op }

def step (id : ℕ) (r : Reader) : Call → Option Reader
  | .get locked => if r.held then none else some (r.get id locked)
  | .advance wait => if r.held then r.advance id wait else none
  | .other op => r.other id op

end Reader

variable {s : Queue} {p add : Packet} {rest : List Packet} {id : ℕ} {r : Reader} {call : Call}

/-- What a reader's log and its iterator have in common. -/
structure Following (id : ℕ) (r : Reader) : Prop where
  sound : Sound r.queue
  position : r.queue.position? id ≠ none
  order : Increasing Packet.queueIndex (r.log.map Prod.fst ++ r.pending id)
  below : ∀ x ∈ r.log, x.1.queueIndex < r.queue.nextQueueIndex
  idle : r.held = false →
    r.pending id = r.queue.unread id ∨ r.queue.deleting = true ∨ r.queue.zmTerminate = true
  calm : r.crowded = false → (∀ x ∈ r.log, x.2 = .read) ∧
    (r.held = true → ∃ p, r.last? = some p ∧ r.queue.unread id = p :: r.pending id)

def Settles (id : ℕ) (r r' : Reader) : Prop :=
  ∃ new, r'.queue.history.accepted = r.queue.history.accepted ++ new ∧
    r.log.map Prod.fst ++ r.pending id ++ new = r'.log.map Prod.fst ++ r'.pending id

theorem unread_increasing (h : Sound s) (id : ℕ) : Increasing Packet.queueIndex (s.unread id) := by
  unfold unread
  cases s.position? id with
  | none => exact .nil
  | some position => exact h.increasing.sublist (List.dropWhile_sublist _)

theorem unread_subset (id : ℕ) (s : Queue) : s.unread id ⊆ s.pktQueue := by
  unfold unread
  cases s.position? id with
  | none => exact List.nil_subset _
  | some position => exact (List.dropWhile_sublist _).subset

theorem pending_cases (id : ℕ) (r : Reader) :
    r.pending id = r.queue.unread id ∨
      ∃ p, r.last? = some p ∧ r.queue.unread id = p :: r.pending id := by
  unfold Reader.pending
  split
  · next hnil => exact .inl hnil.symm
  · next p rest hcons =>
    split
    · next hlast => exact .inr ⟨p, hlast, hcons⟩
    · exact .inl hcons.symm

theorem pending_subset (id : ℕ) (r : Reader) : r.pending id ⊆ r.queue.unread id := by
  rcases pending_cases id r with hsame | ⟨p, -, hcons⟩
  · exact hsame ▸ List.Subset.refl _
  · rw [hcons]
    exact List.subset_cons_self p _

theorem pending_eq (h : ∀ p, r.last? = some p → p ∉ r.queue.unread id) :
    r.pending id = r.queue.unread id := by
  refine (pending_cases id r).resolve_right ?_
  rintro ⟨p, hlast, hcons⟩
  exact h p hlast (hcons ▸ List.mem_cons_self)

theorem pending_cons (hlast : r.last? = some p) (hcons : r.queue.unread id = p :: rest) :
    r.pending id = rest := by
  unfold Reader.pending
  rw [hcons]
  exact if_pos hlast

theorem note_last (fate : Fate) (p : Packet) (r : Reader) : (r.note fate [p]).last? = some p := by
  unfold Reader.last? Reader.note
  rw [List.map_singleton, List.getLast?_concat]
  rfl

theorem note_log (fate : Fate) (packets : List Packet) (r : Reader) :
    (r.note fate packets).log.map Prod.fst = r.log.map Prod.fst ++ packets := by
  unfold Reader.note
  rw [List.map_append, List.map_map]
  exact congrArg _ (List.map_id packets)

theorem Following.unread_rest (h : Following id r) (hunread : r.queue.unread id = p :: rest) :
    p ∈ r.queue.pktQueue ∧ p ∉ rest := by
  refine ⟨unread_subset id r.queue (hunread ▸ List.mem_cons_self), fun hmem ↦ ?_⟩
  have hinc : Increasing Packet.queueIndex (p :: rest) := hunread ▸ unread_increasing h.sound id
  exact lt_irrefl _ ((List.pairwise_cons.mp hinc).1 p hmem)

theorem note_nil (fate : Fate) (r : Reader) : r.note fate [] = r :=
  congrArg (fun log ↦ { r with log := log }) (List.append_nil r.log)

theorem Following.below_note (h : Following id r) (fate : Fate) {packets : List Packet}
    (hpackets : packets ⊆ r.queue.pktQueue) :
    ∀ x ∈ (r.note fate packets).log, x.1.queueIndex < r.queue.nextQueueIndex := by
  intro x hx
  rcases List.mem_append.mp hx with hx | hx
  · exact h.below x hx
  · obtain ⟨q, hq, rfl⟩ := List.mem_map.mp hx
    exact h.sound.below q (hpackets hq)

theorem Following.get (h : Following id r) (hheld : r.held = false) (locked : Bool) :
    Following id (r.get id locked) ∧ Settles id r (r.get id locked) := by
  unfold Reader.get
  split
  · exact ⟨h, [], (List.append_nil _).symm, List.append_nil _⟩
  · next hrunning =>
    have hidle : r.pending id = r.queue.unread id := by
      rcases h.idle hheld with hsame | hdeleting | hterminate
      · exact hsame
      · exact absurd (by rw [hdeleting]; rfl) hrunning
      · exact absurd (by rw [hterminate, Bool.or_true]; rfl) hrunning
    cases hunread : r.queue.unread id with
    | nil =>
      have hsame : { r.note .read (List.take 1 []) with held := decide (([] : List Packet) ≠ []) } =
          r := by
        rw [List.take_nil, note_nil]
        exact congrArg (fun held ↦ { r with held := held }) hheld.symm
      rw [hsame]
      exact ⟨h, [], (List.append_nil _).symm, List.append_nil _⟩
    | cons p rest =>
      change Following id { r.note .read [p] with held := true } ∧
        Settles id r { r.note .read [p] with held := true }
      have hpending : Reader.pending id { r.note .read [p] with held := true } = rest :=
        pending_cons (note_last .read p r) hunread
      have hlog := note_log .read [p] r
      have hsettled : r.log.map Prod.fst ++ r.pending id =
          (r.note .read [p]).log.map Prod.fst ++ rest := by
        rw [hlog, hidle, hunread, List.append_assoc]
        rfl
      refine ⟨⟨h.sound, h.position, ?_, ?_, nofun, fun hcalm ↦ ⟨?_, fun _ ↦ ?_⟩⟩, [],
        (List.append_nil _).symm, ?_⟩
      · rw [hpending]
        exact hsettled ▸ h.order
      · have hmem := (h.unread_rest hunread).1
        exact h.below_note .read (List.cons_subset.mpr ⟨hmem, List.nil_subset _⟩)
      · exact List.forall_mem_append.mpr ⟨(h.calm hcalm).1, by simp⟩
      · exact ⟨p, note_last .read p r, by rw [hpending]; exact hunread⟩
      · rw [List.append_nil, hpending]
        exact hsettled

theorem Following.advance {wait : Bool} {r' : Reader} (h : Following id r) (hheld : r.held = true)
    (hstep : r.advance id wait = some r') : Following id r' ∧ Settles id r r' := by
  unfold Reader.advance at hstep
  split at hstep
  · next hended =>
    obtain rfl := Option.some.inj hstep
    refine ⟨⟨h.sound, h.position, h.order, h.below, fun _ ↦ .inr ?_, fun hcalm ↦
      ⟨(h.calm hcalm).1, nofun⟩⟩, [], (List.append_nil _).symm, List.append_nil _⟩
    exact (Bool.or_eq_true_iff.mp hended).imp_right fun hboth ↦ (Bool.and_eq_true_iff.mp hboth).2
  · next hrunning =>
    split at hstep
    · next hnil =>
      obtain rfl := Option.some.inj hstep
      have hnone : r.pending id = [] := List.subset_nil.mp (hnil ▸ pending_subset id r)
      refine ⟨⟨h.sound, h.position, h.order, h.below, fun _ ↦ .inl (hnone.trans hnil.symm),
        fun hcalm ↦ ⟨(h.calm hcalm).1, fun _ ↦ ?_⟩⟩, [], (List.append_nil _).symm,
        List.append_nil _⟩
      exact (h.calm hcalm).2 hheld
    · next hmore =>
      obtain ⟨queue, hqueue, rfl⟩ := Option.map_eq_some_iff.mp hstep
      obtain ⟨p, rest, hunread⟩ := List.exists_cons_of_ne_nil hmore
      unfold incrementIt at hqueue
      rw [if_neg hrunning] at hqueue
      obtain ⟨hmoved, hsteady, hposition, -⟩ := advance_unread h.sound hunread hqueue
      obtain ⟨hmem, hnot⟩ := h.unread_rest hunread
      -- whatever the call logs, it is done with `p` and has the rest before it
      have hdone (log : List (Packet × Fate)) (hlast : log.getLast?.map Prod.fst = some p)
          (hlog : r.log.map Prod.fst ++ r.pending id = log.map Prod.fst ++ rest)
          (hbelow : ∀ x ∈ log, x.1.queueIndex < r.queue.nextQueueIndex)
          (hcalm : r.crowded = false → ∀ x ∈ log, x.2 = .read) :
          Following id ⟨queue, false, log, r.crowded⟩ ∧
            Settles id r ⟨queue, false, log, r.crowded⟩ := by
        have hpending : Reader.pending id ⟨queue, false, log, r.crowded⟩ = rest := by
          rw [← hmoved]
          refine pending_eq fun q hq ↦ ?_
          obtain rfl := Option.some.inj (hlast.symm.trans hq)
          exact hmoved ▸ hnot
        refine ⟨⟨hsteady.sound h.sound, hposition, ?_, hsteady.next ▸ hbelow,
          fun _ ↦ .inl (hpending.trans hmoved.symm), fun hfree ↦ ⟨hcalm hfree, nofun⟩⟩, [], ?_, ?_⟩
        · rw [hpending]
          exact hlog ▸ h.order
        · rw [List.append_nil]
          exact congrArg History.accepted hsteady.history
        · rw [List.append_nil, hpending]
          exact hlog
      rw [hunread, List.take_one, List.head?_cons, Option.toList_some, List.filter_singleton]
      rcases pending_cases id r with hsame | ⟨q, hlast, hcons⟩
      · have hnew : r.last? ≠ some p := by
          intro hlast
          have hrest := pending_cons hlast hunread
          rw [hsame, hunread] at hrest
          exact List.cons_ne_self p rest hrest
        rw [decide_eq_true hnew]
        refine hdone (r.note .skipped [p]).log (note_last .skipped p r) ?_
          (h.below_note .skipped (List.cons_subset.mpr ⟨hmem, List.nil_subset _⟩)) fun hfree ↦ ?_
        · rw [note_log, hsame, hunread, List.append_assoc]
          rfl
        · obtain ⟨q, hlast, hcons⟩ := (h.calm hfree).2 hheld
          rw [hsame] at hcons
          exact absurd hcons.symm (List.cons_ne_self q _)
      · obtain ⟨rfl, hrest⟩ := List.cons.inj (hcons.symm.trans hunread)
        rw [decide_eq_false (not_not.mpr hlast), Bool.cond_false, note_nil]
        exact hdone r.log hlast (by rw [hrest]) h.below fun hfree ↦ (h.calm hfree).1

theorem Following.leaves {queue : Queue} (h : Following id r) (hleaves : Leaves id r.queue queue)
    (crowded : Bool) (hcrowded : crowded = false → r.crowded = false) :
    Following id { r.note .trimmed ((r.pending id).filter (· ∉ queue.pktQueue)) with
      queue := queue, crowded := crowded } ∧
    Settles id r { r.note .trimmed ((r.pending id).filter (· ∉ queue.pktQueue)) with
      queue := queue, crowded := crowded } := by
  have hunread := hleaves.unread h.sound
  have hnone : (r.pending id).filter (· ∉ queue.pktQueue) = [] := by
    refine List.filter_eq_nil_iff.mpr fun p hp ↦ ?_
    have hmem := unread_subset id queue (hunread ▸ pending_subset id r hp)
    simpa using hmem
  rw [hnone, note_nil]
  have hpending : Reader.pending id { r with queue := queue, crowded := crowded } =
      r.pending id := by
    unfold Reader.pending
    rw [hunread]
    rfl
  refine ⟨⟨hleaves.sound, ?_, ?_, ?_, ?_, ?_⟩, [], ?_, ?_⟩
  · rw [hleaves.position]
    exact h.position
  · rw [hpending]
    exact h.order
  · rw [hleaves.next]
    exact h.below
  · intro hheld
    rw [hpending, hunread]
    rcases h.idle hheld with hsame | hended
    · exact .inl hsame
    · rcases hleaves.ended hended with hended' | hempty
      · exact .inr hended'
      · have hnil := List.subset_nil.mp (hempty ▸ unread_subset id r.queue)
        exact .inl ((List.subset_nil.mp (hnil ▸ pending_subset id r)).trans hnil.symm)
  · intro hfree
    rw [hpending, hunread]
    exact h.calm (hcrowded hfree)
  · rw [List.append_nil]
    exact hleaves.accepted
  · rw [List.append_nil, hpending]

theorem Following.fresh (h : Following id r) (hindex : add.queueIndex = r.queue.nextQueueIndex)
    (hlog : p ∈ r.log.map Prod.fst) : p ≠ add ∧ p ∉ r.pending id := by
  constructor
  · rintro rfl
    obtain ⟨x, hx, rfl⟩ := List.mem_map.mp hlog
    exact lt_irrefl _ (hindex ▸ h.below x hx)
  · intro hmem
    exact lt_irrefl _ ((List.pairwise_append.mp h.order).2.2 p hlog p hmem)

theorem Following.grows (h : Following id r) (hindex : add.queueIndex = r.queue.nextQueueIndex) :
    Increasing Packet.queueIndex (r.log.map Prod.fst ++ r.pending id ++ [add]) := by
  refine h.order.snoc fun p hp ↦ ?_
  rw [hindex]
  rcases List.mem_append.mp hp with hp | hp
  · obtain ⟨x, hx, rfl⟩ := List.mem_map.mp hp
    exact h.below x hx
  · exact h.sound.below p (unread_subset id r.queue (pending_subset id r hp))

theorem Following.receives {queue : Queue} {gone kept : List Packet} (h : Following id r)
    (hrec : Receives id add r.queue queue gone kept) (crowded : Bool)
    (hcrowded : crowded = false → r.crowded = false ∧ gone = []) :
    Following id { r.note .trimmed ((r.pending id).filter (· ∉ queue.pktQueue)) with
      queue := queue, crowded := crowded } ∧
    Settles id r { r.note .trimmed ((r.pending id).filter (· ∉ queue.pktQueue)) with
      queue := queue, crowded := crowded } := by
  have hkept : kept ⊆ queue.pktQueue := by
    refine List.Subset.trans ?_ (unread_subset id queue)
    rw [hrec.after]
    exact List.subset_append_left _ _
  have hbelow (lost : List Packet) (hlost : lost ⊆ r.queue.pktQueue) :
      ∀ x ∈ (r.note .trimmed lost).log, x.1.queueIndex < queue.nextQueueIndex := by
    intro x hx
    rw [hrec.next]
    exact Nat.lt_succ_of_lt (h.below_note .trimmed hlost x hx)
  -- the reader's iterator goes with the packets that leave, or stands behind them
  have hlost (lost : List Packet) (hpending : r.pending id = lost ++ kept) (hlost : lost ⊆ gone)
      (hread : crowded = false → lost = [] ∧ r.held = false) :
      Following id { r.note .trimmed ((r.pending id).filter (· ∉ queue.pktQueue)) with
        queue := queue, crowded := crowded } ∧
      Settles id r { r.note .trimmed ((r.pending id).filter (· ∉ queue.pktQueue)) with
        queue := queue, crowded := crowded } := by
    have htrimmed : (r.pending id).filter (· ∉ queue.pktQueue) = lost := by
      rw [hpending, List.filter_append, List.filter_eq_self.mpr, List.filter_eq_nil_iff.mpr,
        List.append_nil]
      · exact fun p hp ↦ by simpa using hkept hp
      · exact fun p hp ↦ decide_eq_true (hrec.gone p (hlost hp))
    rw [htrimmed]
    have hnew : Reader.pending id { r.note .trimmed lost with queue := queue, crowded := crowded } =
        queue.unread id := by
      refine pending_eq fun p hlast hmem ↦ ?_
      have hlog : p ∈ (r.note .trimmed lost).log.map Prod.fst := by
        obtain ⟨x, hx, rfl⟩ := Option.map_eq_some_iff.mp hlast
        exact List.mem_map_of_mem (List.mem_of_getLast? hx)
      rw [note_log] at hlog
      rcases List.mem_append.mp hlog with hold | hgone
      · obtain ⟨hne, hnot⟩ := h.fresh hrec.index hold
        change p ∈ queue.unread id at hmem
        rw [hrec.after] at hmem
        rcases List.mem_append.mp hmem with hmem | hmem
        · exact hnot (hpending ▸ List.mem_append_right _ hmem)
        · exact hne (List.mem_singleton.mp hmem)
      · exact hrec.gone p (hlost hgone) (unread_subset id queue hmem)
    have hsettled : r.log.map Prod.fst ++ r.pending id ++ [add] =
        (r.note .trimmed lost).log.map Prod.fst ++ queue.unread id := by
      rw [note_log, hpending, hrec.after]
      simp only [List.append_assoc]
    refine ⟨⟨hrec.sound, hrec.position, ?_, hbelow lost ?_, fun _ ↦ .inl hnew, fun hfree ↦ ?_⟩,
      [add], hrec.accepted, hnew ▸ hsettled⟩
    · rw [hnew, ← hsettled]
      exact h.grows hrec.index
    · intro p hp
      apply unread_subset id r.queue
      rw [hrec.before]
      exact List.mem_append_left _ (hlost hp)
    · obtain ⟨rfl, hheld⟩ := hread hfree
      rw [note_nil]
      exact ⟨(h.calm (hcrowded hfree).1).1, fun hheld' ↦ absurd (hheld.symm.trans hheld') nofun⟩
  rcases pending_cases id r with hsame | ⟨q, hlast, hcons⟩
  · refine hlost gone (hsame.trans hrec.before) (List.Subset.refl _) fun hfree ↦ ?_
    obtain ⟨hfree, hgone⟩ := hcrowded hfree
    refine ⟨hgone, ?_⟩
    rw [← Bool.not_eq_true]
    intro hheld
    obtain ⟨q, -, hcons⟩ := (h.calm hfree).2 hheld
    rw [hsame] at hcons
    exact List.cons_ne_self q _ hcons.symm
  · have hbefore := hrec.before
    rw [hcons] at hbefore
    cases gone with
    | cons g gone =>
      obtain ⟨-, hpending⟩ := List.cons.inj hbefore
      exact hlost gone hpending (List.subset_cons_self g gone) fun hfree ↦
        absurd (hcrowded hfree).2 nofun
    | nil =>
      -- the packet that the reader is done with still stands first
      have hafter : queue.unread id = q :: (r.pending id ++ [add]) := by
        rw [hrec.after, ← List.nil_append kept, ← hbefore]
        rfl
      have hnone : (r.pending id).filter (· ∉ queue.pktQueue) = [] := by
        refine List.filter_eq_nil_iff.mpr fun p hp ↦ ?_
        have hmem : p ∈ kept := by
          rw [← List.nil_append kept, ← hbefore]
          exact List.mem_cons_of_mem q hp
        simpa using hkept hmem
      rw [hnone, note_nil]
      have hnew : Reader.pending id { r with queue := queue, crowded := crowded } =
          r.pending id ++ [add] := pending_cons hlast hafter
      refine ⟨⟨hrec.sound, hrec.position, ?_, ?_, fun hheld ↦ ?_, fun hfree ↦ ?_⟩,
        [add], hrec.accepted, ?_⟩
      · rw [hnew, ← List.append_assoc]
        exact h.grows hrec.index
      · intro x hx
        rw [hrec.next]
        exact Nat.lt_succ_of_lt (h.below x hx)
      · obtain ⟨hrunning, hrunning'⟩ := hrec.running
        rcases h.idle hheld with hsame | hended | hended
        · rw [hcons] at hsame
          exact absurd hsame.symm (List.cons_ne_self q _)
        · exact absurd (hrunning.symm.trans hended) nofun
        · exact absurd (hrunning'.symm.trans hended) nofun
      · exact ⟨(h.calm (hcrowded hfree).1).1, fun _ ↦ ⟨q, hlast, by rw [hnew]; exact hafter⟩⟩
      · rw [hnew, List.append_assoc]

def Call.spares (id : ℕ) : Call → Bool
  | .other op => op.spares id
  | _ => true

theorem Following.step {r' : Reader} (h : Following id r) (hcall : call.spares id = true)
    (hstep : r.step id call = some r') : Following id r' ∧ Settles id r r' := by
  cases call with
  | get locked =>
    obtain ⟨hheld, hsome⟩ := Option.ite_none_left_eq_some.mp hstep
    obtain rfl := Option.some.inj hsome
    exact h.get (Bool.not_eq_true _ ▸ hheld) locked
  | advance wait =>
    obtain ⟨hheld, hstep⟩ := Option.ite_none_right_eq_some.mp hstep
    exact h.advance hheld hstep
  | other op =>
    obtain ⟨queue, hqueue, rfl⟩ := Option.map_eq_some_iff.mp hstep
    have hfree (hnot : (r.crowded || !r.queue.roomy op) = false) :
        r.crowded = false ∧ r.queue.roomy op = true :=
      (Bool.or_eq_false_iff.mp hnot).imp_right fun hroomy ↦ Bool.not_eq_false' .. ▸ hroomy
    rcases leaves_or_queues h.sound h.position hcall hqueue with
      hleaves | ⟨packet, interrupted, rfl⟩
    · exact h.leaves hleaves _ fun hnot ↦ (hfree hnot).1
    · obtain ⟨⟨b, u⟩, hpacket, rfl⟩ := Option.map_eq_some_iff.mp hqueue
      rcases queuePacket_receives h.sound h.position hpacket with rfl | ⟨gone, kept, hrec, hroomy⟩
      · exact h.leaves (.refl h.sound) _ fun hnot ↦ (hfree hnot).1
      · exact h.receives hrec _ fun hnot ↦ ⟨(hfree hnot).1, hroomy (hfree hnot).2⟩

/-- Every packet from the reader's place on, whenever it was queued, is pending or has had one fate,
and all in their order. None has another fate than to be read while no packet comes to a full
queue. -/
theorem delivered (h : Reachable step .init s) (hid : s.position? id ≠ none) {calls : List Call}
    (hrun : Run (Reader.step id) (fun _ call ↦ call.spares id = true) { queue := s } calls r) :
    ∃ new, r.queue.history.accepted = s.history.accepted ++ new ∧
      s.unread id ++ new = r.log.map Prod.fst ++ r.pending id ∧
      (s.unread id ++ new).Pairwise (fun p q ↦ p.queueIndex < q.queueIndex) ∧
      (r.crowded = false → ∀ x ∈ r.log, x.2 = .read) := by
  have hsound := reachable_sound h
  have hstart : Reader.pending id { queue := s } = s.unread id :=
    pending_eq fun _ hlast ↦ nomatch hlast
  have hfollow : Following id { queue := s } := by
    refine ⟨hsound, hid, ?_, List.forall_mem_nil _, fun _ ↦ .inl hstart,
      fun _ ↦ ⟨List.forall_mem_nil _, nofun⟩⟩
    rw [hstart]
    exact unread_increasing hsound id
  have hinv : Following id r ∧ ∃ new, r.queue.history.accepted = s.history.accepted ++ new ∧
      s.unread id ++ new = r.log.map Prod.fst ++ r.pending id := by
    refine hrun.invariant (I := fun r ↦ Following id r ∧
      ∃ new, r.queue.history.accepted = s.history.accepted ++ new ∧
        s.unread id ++ new = r.log.map Prod.fst ++ r.pending id) ?_ ?_
    · rintro r call r' ⟨hr, new, haccepted, hsettled⟩ hcall hstep
      obtain ⟨hr', new', haccepted', hsettled'⟩ := hr.step hcall hstep
      refine ⟨hr', new ++ new', ?_, ?_⟩
      · rw [haccepted', haccepted, List.append_assoc]
      · rw [← List.append_assoc, hsettled, hsettled']
    · exact ⟨hfollow, [], (List.append_nil _).symm, by rw [List.append_nil, hstart]; rfl⟩
  obtain ⟨hr, new, haccepted, hsettled⟩ := hinv
  exact ⟨new, haccepted, hsettled, hsettled ▸ hr.order, fun hfree ↦ (hr.calm hfree).1⟩

/-- A trim between the two calls of a reader takes its iterator along, so that the reader steps over
a packet that it never got and that is still queued. -/
theorem delivered_skipped : ∃ s r, Reachable step .init s ∧
    Run (Reader.step 0) (fun _ call ↦ call.spares 0 = true) { queue := s }
      [.other (.queuePacket ⟨0, 0, true, 0⟩ false), .other (.queuePacket ⟨0, 0, true, 1⟩ false),
        .get true, .other (.queuePacket ⟨0, 0, true, 2⟩ false), .advance false] r ∧
    r.log.map (fun x ↦ (x.1.queueIndex, x.2)) = [(0, .read), (1, .skipped)] ∧
    r.queue.pktQueue.map (·.queueIndex) = [1, 2] ∧
    ∃ new, s.unread 0 ++ new = r.log.map Prod.fst ++ r.pending 0 := by
  have hreach : Run step (fun _ _ ↦ True) .init
      [.addStream, .setMaxVideoPackets 2, .getVideoIt false]
      (getVideoIt false (setMaxVideoPackets 2 { Queue.init with
        videoStreamId := 0, maxStreamId := 0 })) :=
    .cons trivial rfl (.cons trivial rfl (.cons trivial rfl (.nil _)))
  have hrun : Run (Reader.step 0) (fun _ call ↦ call.spares 0 = true)
      { queue := getVideoIt false (setMaxVideoPackets 2 { Queue.init with
        videoStreamId := 0, maxStreamId := 0 }) }
      [.other (.queuePacket ⟨0, 0, true, 0⟩ false), .other (.queuePacket ⟨0, 0, true, 1⟩ false),
        .get true, .other (.queuePacket ⟨0, 0, true, 2⟩ false), .advance false] _ :=
    .cons rfl rfl (.cons rfl rfl (.cons rfl rfl (.cons rfl rfl (.cons rfl rfl (.nil _)))))
  obtain ⟨new, -, hsettled, -⟩ := delivered ⟨_, hreach⟩ (by decide) hrun
  exact ⟨_, _, ⟨_, hreach⟩, hrun, by decide, by decide, new, hsettled⟩

end ZoneMinder.PacketQueue
