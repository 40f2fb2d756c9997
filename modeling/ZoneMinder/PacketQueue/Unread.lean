import ZoneMinder.PacketQueue.Room

namespace ZoneMinder.PacketQueue

open Lib Queue

namespace Queue

def position? (id : ℕ) (s : Queue) : Option (WithTop ℕ) :=
  (s.iterators.find? (·.id = id)).map (·.position)

def unread (id : ℕ) (s : Queue) : List Packet :=
  ((s.position? id).map fun position ↦ s.pktQueue.dropWhile (·.position ≠ position)).getD []

/-- A packet comes while no video packet has to go for it. -/
def roomy (s : Queue) : Op → Bool
  | .queuePacket packet _ => !(s.isVideo packet && decide (0 < s.maxVideoPacketCount ∧
      s.maxVideoPacketCount ≤ s.packetCounts s.videoStreamId))
  | _ => true

end Queue

def Op.spares (id : ℕ) : Op → Bool
  | .wakeVideoIt i | .incrementIt i _ | .incrementItStream i _ | .getPacketAndIncrementIt i _
  | .freeIt i => i ≠ id
  | .clear => false
  | _ => true

variable {s t : Queue} {p add target : Packet} {rest l lo hi : List Packet} {id : ℕ} {op : Op}
  {position : WithTop ℕ}

theorem dropWhile_position (h : Increasing Packet.queueIndex (lo ++ p :: hi)) :
    (lo ++ p :: hi).dropWhile (·.position ≠ p.position) = p :: hi := by
  simp only [ne_eq, position_inj]
  exact h.dropWhile_ne

theorem unread_some (hid : s.position? id = some position) :
    s.unread id = s.pktQueue.dropWhile (·.position ≠ position) := by
  unfold unread
  rw [hid]
  rfl

theorem unread_none (hid : s.position? id = none) : s.unread id = [] := by
  unfold unread
  rw [hid]
  rfl

theorem unread_top (hid : s.position? id = some ⊤) : s.unread id = [] := by
  rw [unread_some hid, List.dropWhile_eq_nil_iff]
  exact fun p _ ↦ decide_eq_true position_ne_top

theorem unread_split (h : Increasing Packet.queueIndex s.pktQueue)
    (hid : s.position? id = some p.position) (hq : s.pktQueue = lo ++ p :: hi) :
    s.unread id = p :: hi := by
  rw [unread_some hid, hq]
  exact dropWhile_position (hq ▸ h)

theorem position?_placed (h : Sound s) (hid : s.position? id = some position) :
    position = ⊤ ∨ ∃ p ∈ s.pktQueue, position = p.position := by
  obtain ⟨it, hfind, rfl⟩ := Option.map_eq_some_iff.mp hid
  exact h.placed it (List.mem_of_find?_eq_some hfind)

theorem unread_cases (h : Sound s) (id : ℕ) : s.unread id = [] ∧
      (s.position? id = none ∨ s.position? id = some ⊤) ∨
    ∃ lo p hi, s.pktQueue = lo ++ p :: hi ∧ s.position? id = some p.position ∧
      s.unread id = p :: hi := by
  cases hid : s.position? id with
  | none => exact .inl ⟨unread_none hid, .inl rfl⟩
  | some position =>
    rcases position?_placed h hid with rfl | ⟨p, hp, rfl⟩
    · exact .inl ⟨unread_top hid, .inr rfl⟩
    · obtain ⟨lo, hi, hq⟩ := List.append_of_mem hp
      exact .inr ⟨lo, p, hi, hq, rfl, unread_split h.increasing hid hq⟩

structure Leaves (id : ℕ) (s t : Queue) : Prop where
  sound : Sound t
  suffix : t.pktQueue <:+ s.pktQueue
  position : t.position? id = s.position? id
  accepted : t.history.accepted = s.history.accepted
  next : t.nextQueueIndex = s.nextQueueIndex
  ended : s.deleting = true ∨ s.zmTerminate = true →
    (t.deleting = true ∨ t.zmTerminate = true) ∨ s.pktQueue = []

theorem Leaves.unread (h : Leaves id s t) (hs : Sound s) : t.unread id = s.unread id := by
  obtain ⟨gone, hq⟩ := h.suffix
  rcases unread_cases h.sound id with ⟨hnil, hid | hid⟩ | ⟨lo, p, hi, hq', hid, hunread⟩
  · rw [hnil, unread_none (h.position ▸ hid)]
  · rw [hnil, unread_top (h.position ▸ hid)]
  · rw [hunread]
    have hsplit : s.pktQueue = gone ++ lo ++ p :: hi := by rw [List.append_assoc, ← hq', hq]
    exact (unread_split hs.increasing (h.position ▸ hid) hsplit).symm

structure Alike (s t : Queue) : Prop where
  iterators : t.iterators = s.iterators
  deleting : t.deleting = s.deleting
  zmTerminate : t.zmTerminate = s.zmTerminate

theorem Alike.trans {u : Queue} (h : Alike s t) (h' : Alike t u) : Alike s u :=
  ⟨h'.1.trans h.1, h'.2.trans h.2, h'.3.trans h.3⟩

theorem popFront_alike (h : popFront p rest s = some t) : Alike s t := by
  unfold popFront addCount at h
  split at h
  · obtain rfl := Option.some.inj h
    exact ⟨rfl, rfl, rfl⟩
  · contradiction

theorem popUntil_alike (h : popUntil target l s = some t) : Alike s t := by
  induction l generalizing s with
  | nil => contradiction
  | cons p rest ih =>
    unfold popUntil at h
    split at h
    · obtain rfl := Option.some.inj h
      exact ⟨rfl, rfl, rfl⟩
    · obtain ⟨u, hpop, h⟩ := Option.bind_eq_some_iff.mp h
      exact (popFront_alike hpop).trans (ih h)

theorem dropOld_alike {limit : ℤ} {earliest : WithTop ℕ} {n : ℕ}
    (h : dropOld add limit earliest l s = some (n, t)) : Alike s t := by
  induction l generalizing s n with
  | nil => contradiction
  | cons p rest ih =>
    unfold dropOld at h
    split at h
    · obtain ⟨-, rfl⟩ := Prod.mk.inj (Option.some.inj h)
      exact ⟨rfl, rfl, rfl⟩
    · obtain ⟨video, -, h⟩ := Option.bind_eq_some_iff.mp h
      split at h
      · obtain ⟨-, rfl⟩ := Prod.mk.inj (Option.some.inj h)
        exact ⟨rfl, rfl, rfl⟩
      · obtain ⟨u, hpop, h⟩ := Option.bind_eq_some_iff.mp h
        obtain ⟨⟨m, v⟩, hrec, h⟩ := Option.bind_eq_some_iff.mp h
        obtain ⟨-, rfl⟩ := Prod.mk.inj (Option.some.inj h)
        exact (popFront_alike hpop).trans (ih hrec)

theorem clearGops_alike {video : ℤ} {b : Bool}
    (h : clearGops add p rest video s = some (b, t)) : Alike s t := by
  obtain ⟨-, pending, rfl⟩ | ⟨-, nextFront, m, -, ⟨-, rfl⟩ | ⟨target, u, -, hu, rfl⟩⟩ :=
    clearGops_cases h
  · exact ⟨rfl, rfl, rfl⟩
  · exact ⟨rfl, rfl, rfl⟩
  · have hpop := popUntil_alike hu
    exact ⟨hpop.1, hpop.2, hpop.3⟩

theorem clearPackets_alike {b : Bool} (h : clearPackets add s = some (b, t)) : Alike s t := by
  unfold clearPackets at h
  split at h
  · obtain ⟨-, rfl⟩ := Prod.mk.inj (Option.some.inj h)
    exact ⟨rfl, rfl, rfl⟩
  obtain ⟨video, -, h⟩ := Option.bind_eq_some_iff.mp h
  split at h
  · split at h
    · contradiction
    · split at h
      · exact clearGops_alike h
      · obtain ⟨-, rfl⟩ := Prod.mk.inj (Option.some.inj h)
        exact ⟨rfl, rfl, rfl⟩
  · obtain ⟨⟨n, u⟩, hd, h⟩ := Option.bind_eq_some_iff.mp h
    obtain ⟨-, rfl⟩ := Prod.mk.inj (Option.some.inj h)
    have hdrop := dropOld_alike hd
    exact ⟨hdrop.1, hdrop.2, hdrop.3⟩

structure Apart (id : ℕ) (s t : Queue) : Prop where
  position : t.position? id = s.position? id
  deleting : t.deleting = s.deleting
  zmTerminate : t.zmTerminate = s.zmTerminate

theorem position?_congr (h : t.iterators.find? (·.id = id) = s.iterators.find? (·.id = id)) :
    t.position? id = s.position? id := congrArg (Option.map _) h

theorem Alike.apart (h : Alike s t) (id : ℕ) : Apart id s t :=
  ⟨position?_congr (congrArg _ h.iterators), h.deleting, h.zmTerminate⟩

theorem find?_replace {its : List Iterator} {it : Iterator} {other : ℕ} (hne : other ≠ id)
    (hit : it.id = other) : (its.map fun x ↦ if x.id = other then it else x).find? (·.id = id) =
      its.find? (·.id = id) := by
  induction its with
  | nil => rfl
  | cons x its ih =>
    rw [List.map_cons, List.find?_cons, List.find?_cons, ih]
    by_cases hx : x.id = other
    · rw [if_pos hx, hit, hx, decide_eq_false hne]
    · rw [if_neg hx]

theorem onIterator_apart {other : ℕ} {f : Iterator → Option Iterator} (hne : other ≠ id)
    (hf : ∀ it it', it.id = other → f it = some it' → it'.id = other)
    (h : onIterator other f s = some t) : Apart id s t := by
  obtain ⟨it, hfind, h⟩ := Option.bind_eq_some_iff.mp h
  obtain ⟨it', hit', h⟩ := Option.bind_eq_some_iff.mp h
  obtain rfl := Option.some.inj h
  have hfound := List.find?_some hfind
  have hother : it.id = other := of_decide_eq_true hfound
  exact ⟨position?_congr (find?_replace hne (hf it it' hother hit')), rfl, rfl⟩

theorem advance_apart {other : ℕ} {next : List Packet → WithTop ℕ} (hne : other ≠ id)
    (h : Queue.advance other next s = some t) : Apart id s t := by
  refine onIterator_apart hne (fun it it' hother hf ↦ ?_) h
  dsimp only at hf
  split at hf
  · contradiction
  split at hf
  · exact Option.some.inj hf ▸ hother
  · obtain ⟨⟨p, rest⟩, -, rfl⟩ := Option.map_eq_some_iff.mp hf
    exact hother

theorem register_position {it : Iterator} (hid : s.position? id ≠ none)
    (hits : t.iterators = s.iterators ++ [it]) : t.position? id = s.position? id := by
  apply position?_congr
  obtain ⟨x, hfind⟩ := Option.ne_none_iff_exists'.mp fun hnone ↦ hid (congrArg (Option.map _) hnone)
  rw [hits, List.find?_append, hfind]
  rfl

theorem find?_eraseP {its : List Iterator} {q : Iterator → Bool}
    (hq : ∀ it, q it = true → it.id ≠ id) :
    (its.eraseP q).find? (·.id = id) = its.find? (·.id = id) := by
  induction its with
  | nil => rfl
  | cons x its ih =>
    by_cases hx : q x = true
    · rw [List.eraseP_cons_of_pos hx, List.find?_cons, decide_eq_false (hq x hx)]
    · rw [List.eraseP_cons_of_neg hx, List.find?_cons, List.find?_cons, ih]

theorem wakeVideoIt_apart {other : ℕ} (hne : other ≠ id) (h : wakeVideoIt other s = some t) :
    Apart id s t := by
  obtain ⟨it, -, h⟩ := Option.bind_eq_some_iff.mp h
  split at h
  · contradiction
  split at h
  · obtain rfl := Option.some.inj h
    refine ⟨position?_congr ?_, rfl, rfl⟩
    rw [List.find?_filter]
    congr 1
    funext x
    by_cases hx : x.id = id
    · simp [hx, Ne.symm hne]
    · simp [hx]
  split at h
  · obtain rfl := Option.some.inj h
    exact ⟨rfl, rfl, rfl⟩
  · exact onIterator_apart hne (fun _ _ _ hit' ↦ Option.some.inj hit' ▸ rfl) h

theorem freeIt_apart {other : ℕ} (hne : other ≠ id) : Apart id s (freeIt other s) := by
  refine ⟨position?_congr (find?_eraseP fun it hit ↦ ?_), rfl, rfl⟩
  exact (of_decide_eq_true hit).1 ▸ hne

theorem getVideoIt_apart {wait : Bool} (hid : s.position? id ≠ none) :
    Apart id s (getVideoIt wait s) := by
  unfold getVideoIt
  split
  · exact ⟨rfl, rfl, rfl⟩
  · exact ⟨register_position hid rfl, rfl, rfl⟩

theorem Steady.leaves (h : Steady s t) (hs : Sound s) (happart : Apart id s t) : Leaves id s t where
  sound := h.sound hs
  suffix := h.packets ▸ List.suffix_rfl
  position := happart.position
  accepted := congrArg History.accepted h.history
  next := h.next
  ended hended := .inl (by rwa [happart.deleting, happart.zmTerminate])

theorem advance_leaves {other : ℕ} {next : List Packet → List Packet} (h : Sound s)
    (hne : other ≠ id) (hnext : ∀ l, (next l).Sublist l)
    (hstep : Queue.advance other (fun rest ↦ front (next rest)) s = some t) : Leaves id s t :=
  (advance_steady h (fun _ rest hinc ↦ front_next hinc (hnext rest)) hstep).leaves h
    (advance_apart hne hstep)

theorem Leaves.refl (h : Sound s) : Leaves id s s :=
  ⟨h, List.suffix_rfl, rfl, rfl, rfl, .inl⟩

theorem leaves_or_queues (h : Sound s) (hid : s.position? id ≠ none) (hop : op.spares id = true)
    (hstep : step s op = some t) :
    Leaves id s t ∨ ∃ packet interrupted, op = .queuePacket packet interrupted := by
  have hsettings (heq : t = { s with
      deleting := t.deleting, keepKeyframes := t.keepKeyframes,
      zmTerminate := t.zmTerminate, maxVideoPacketCount := t.maxVideoPacketCount,
      preEventVideoPacketCount := t.preEventVideoPacketCount,
      keyframeIntervalOverLimit := t.keyframeIntervalOverLimit })
      (hended : s.deleting = true ∨ s.zmTerminate = true →
        t.deleting = true ∨ t.zmTerminate = true) : Leaves id s t := by
    have hits : t.iterators = s.iterators := by rw [heq]
    have hsteady : Steady s t := h.steady hits (List.Subset.refl _) heq
    exact ⟨hsteady.sound h, hsteady.packets ▸ List.suffix_rfl,
      position?_congr (congrArg _ hits), congrArg History.accepted hsteady.history, hsteady.next,
      fun hs ↦ .inl (hended hs)⟩
  cases op with
  | queuePacket packet interrupted => exact .inr ⟨packet, interrupted, rfl⟩
  | addStream =>
    left
    have hempty := addStream_empties h hstep
    change addStream s = some t at hstep
    unfold addStream at hstep
    split at hstep
    · contradiction
    · next hq =>
      obtain rfl := Option.some.inj hstep
      exact ⟨hempty.sound, List.suffix_rfl, rfl, rfl, rfl, fun _ ↦ .inr (not_not.mp hq)⟩
  | clearPackets add =>
    left
    obtain ⟨⟨b, u⟩, hclear, rfl⟩ := Option.map_eq_some_iff.mp hstep
    have hcut := clearPackets_cuts h hclear
    have halike := clearPackets_alike hclear
    refine ⟨hcut.sound, hcut.suffix, (halike.apart id).position,
      congrArg History.accepted hcut.keeps.history, hcut.keeps.next, fun hended ↦ .inl ?_⟩
    rwa [halike.deleting, halike.zmTerminate]
  | releaseDecoded =>
    left
    obtain rfl := Option.some.inj hstep
    have hsound := releaseDecoded_sound h
    obtain ⟨r, c, k, n, e, he⟩ := releaseDecoded_eq s
    rw [he] at hsound ⊢
    exact ⟨hsound, List.suffix_rfl, rfl, rfl, rfl, .inl⟩
  | getVideoIt wait =>
    obtain rfl := Option.some.inj hstep
    exact .inl ((getVideoIt_steady h).leaves h (getVideoIt_apart hid))
  | wakeVideoIt other =>
    exact .inl ((wakeVideoIt_steady h hstep).leaves h
      (wakeVideoIt_apart (of_decide_eq_true hop) hstep))
  | incrementIt other wait =>
    left
    change incrementIt other wait s = some t at hstep
    unfold incrementIt at hstep
    split at hstep
    · exact Option.some.inj hstep ▸ .refl h
    · exact advance_leaves h (of_decide_eq_true hop) (fun l ↦ .refl l) hstep
  | incrementItStream other stream =>
    exact .inl (advance_leaves h (of_decide_eq_true hop) (fun l ↦ List.dropWhile_sublist _) hstep)
  | getPacketAndIncrementIt other locked =>
    left
    change getPacketAndIncrementIt other locked s = some t at hstep
    unfold getPacketAndIncrementIt at hstep
    split at hstep
    · exact Option.some.inj hstep ▸ .refl h
    · exact advance_leaves h (of_decide_eq_true hop) (fun l ↦ .refl l) hstep
  | freeIt other =>
    obtain rfl := Option.some.inj hstep
    have hsteady : Steady s (freeIt other s) := h.steady rfl List.eraseP_subset rfl
    exact .inl (hsteady.leaves h (freeIt_apart (of_decide_eq_true hop)))
  | getEventStartPacketIt snapshot n =>
    obtain ⟨⟨other, u⟩, hget, rfl⟩ := Option.map_eq_some_iff.mp hstep
    obtain ⟨it, hit, hget⟩ := Option.bind_eq_some_iff.mp hget
    obtain ⟨-, rfl⟩ := Prod.mk.inj (Option.some.inj hget)
    exact .inl ((register_steady h (.inr ⟨it, eventStart_mem hit, rfl⟩)).leaves h
      ⟨register_position hid rfl, rfl, rfl⟩)
  | clear => contradiction
  | stop =>
    obtain rfl := Option.some.inj hstep
    exact .inl (hsettings rfl fun _ ↦ .inl rfl)
  | terminate =>
    obtain rfl := Option.some.inj hstep
    exact .inl (hsettings rfl fun _ ↦ .inr rfl)
  | setMaxVideoPackets | setPreEventVideoPackets | setKeepKeyframes =>
    obtain rfl := Option.some.inj hstep
    exact .inl (hsettings rfl fun hended ↦ hended)

theorem position?_moved (id : ℕ) {position' : WithTop ℕ}
    (hits : t.iterators = s.iterators.map fun it ↦
      if it.position = position then { it with position := position' } else it) :
    t.position? id = (s.position? id).map fun x ↦ if x = position then position' else x := by
  unfold position?
  rw [hits]
  generalize s.iterators = its
  induction its with
  | nil => rfl
  | cons it its ih =>
    rw [List.map_cons, List.find?_cons, List.find?_cons]
    by_cases hid : it.id = id
    · by_cases hit : it.position = position
      · simp [hid, hit]
      · simp [hid, hit]
    · rw [decide_eq_false hid]
      by_cases hit : it.position = position
      · rw [if_pos hit, decide_eq_false hid]
        exact ih
      · rw [if_neg hit, decide_eq_false hid]
        exact ih

theorem find?_replaced {its : List Iterator} {it it' : Iterator}
    (hfind : its.find? (·.id = id) = some it) (hid : it'.id = id) :
    (its.map fun x ↦ if x.id = id then it' else x).find? (·.id = id) = some it' := by
  induction its with
  | nil => contradiction
  | cons x its ih =>
    rw [List.map_cons, List.find?_cons]
    by_cases hx : x.id = id
    · rw [if_pos hx, decide_eq_true hid]
    · rw [if_neg hx, decide_eq_false hx]
      rw [List.find?_cons, decide_eq_false hx] at hfind
      exact ih hfind

theorem from?_eq (h : Sound s) (hq : s.pktQueue = lo ++ p :: hi) :
    s.from? p.position = some (p, hi) := by
  unfold from?
  rw [hq, dropWhile_position (hq ▸ h.increasing)]

theorem unread_front (h : Increasing Packet.queueIndex s.pktQueue)
    (hq : s.pktQueue = lo ++ hi) (hid : s.position? id = some (front hi)) : s.unread id = hi := by
  cases hi with
  | nil => exact unread_top hid
  | cons q hi => exact unread_split h hid hq

theorem advance_unread (h : Sound s) (hunread : s.unread id = p :: rest)
    (hstep : Queue.advance id front s = some t) : t.unread id = rest ∧ Steady s t ∧
      t.position? id ≠ none ∧ t.deleting = s.deleting ∧ t.zmTerminate = s.zmTerminate := by
  have hsteady := advance_steady h (fun _ rest hinc ↦ front_next hinc (List.Sublist.refl rest))
    hstep
  obtain ⟨hnil, -⟩ | ⟨lo, q, hi, hq, hid, hunread'⟩ := unread_cases h id
  · rw [hnil] at hunread
    contradiction
  · obtain ⟨rfl, rfl⟩ := List.cons.inj (hunread'.symm.trans hunread)
    obtain ⟨it, hfind, hposition⟩ := Option.map_eq_some_iff.mp hid
    obtain ⟨it', hfind', hstep⟩ := Option.bind_eq_some_iff.mp hstep
    obtain rfl := Option.some.inj (hfind.symm.trans hfind')
    obtain ⟨it', hit', hstep⟩ := Option.bind_eq_some_iff.mp hstep
    obtain rfl := Option.some.inj hstep
    have hfound := List.find?_some hfind
    have hmoved : it' = { it with position := front hi } := by
      dsimp only at hit'
      split at hit'
      · contradiction
      · rw [hposition, if_neg position_ne_top, from?_eq h hq] at hit'
        exact (Option.some.inj hit').symm
    have hnew := congrArg (Option.map (·.position))
      (find?_replaced hfind (hmoved ▸ of_decide_eq_true hfound : it'.id = id))
    have hfront : it'.position = front hi := by rw [hmoved]
    have hq' : s.pktQueue = lo ++ [q] ++ hi := by rw [hq, List.append_assoc]; rfl
    refine ⟨unread_front (hsteady.sound h).increasing hq' (hnew.trans (congrArg some hfront)),
      hsteady, ?_, rfl, rfl⟩
    rw [position?, hnew]
    exact Option.some_ne_none _

theorem pushBack_fields (h : pushBack add (noteKeyframe add (noteOrder add s)) = some t) :
    (t.iterators = s.iterators.map fun it ↦
      if it.position = ⊤ then { it with position := add.position } else it) ∧
    t.deleting = s.deleting ∧ t.zmTerminate = s.zmTerminate ∧
    t.maxVideoPacketCount = s.maxVideoPacketCount ∧
    t.packetCounts add.streamIndex = s.packetCounts add.streamIndex + 1 := by
  obtain ⟨o, m, f, b, he⟩ := notes_eq add s
  rw [he] at h
  unfold pushBack addCount at h
  split at h
  · obtain rfl := Option.some.inj h
    exact ⟨rfl, rfl, rfl, rfl, Function.update_self _ _ _⟩
  · contradiction

theorem pushBack_unread (h : Sound s) (hid : s.position? id ≠ none) (hpush : Pushes add s t)
    (hits : t.iterators = s.iterators.map fun it ↦
      if it.position = ⊤ then { it with position := add.position } else it) :
    t.unread id = s.unread id ++ [add] ∧ t.position? id ≠ none := by
  have hposition := position?_moved id hits
  refine ⟨?_, by rwa [hposition, ne_eq, Option.map_eq_none_iff]⟩
  obtain ⟨hnil, hnone | htop⟩ | ⟨lo, p, hi, hq, hp, hunread⟩ := unread_cases h id
  · exact absurd hnone hid
  · rw [htop, Option.map_some, if_pos rfl] at hposition
    rw [hnil, unread_split hpush.sound.increasing hposition hpush.packets]
    rfl
  · rw [hp, Option.map_some, if_neg position_ne_top] at hposition
    have hq' : t.pktQueue = lo ++ p :: (hi ++ [add]) := by
      rw [hpush.packets, hq, List.append_assoc, List.cons_append]
    rw [hunread, unread_split hpush.sound.increasing hposition hq', List.cons_append]

/-- A packet that goes takes the reader's iterator along if it stands there. -/
theorem deletePacket_unread (h : Sound s) (hid : s.position? id ≠ none)
    (hq : s.pktQueue = p :: rest) (hstep : deletePacket p rest s = some t) :
    (s.unread id = t.unread id ∨ s.unread id = p :: t.unread id) ∧ t.position? id ≠ none := by
  obtain ⟨htrim, hrest⟩ := deletePacket_trims h hq hstep
  unfold deletePacket at hstep
  split at hstep
  · contradiction
  · next hnot =>
    have halike := popFront_alike hstep
    have hposition := position?_moved id halike.iterators
    refine ⟨?_, ?_⟩
    · obtain ⟨-, hnone | htop⟩ | ⟨lo, x, hi, hsplit, hx, hunread⟩ := unread_cases h id
      · exact absurd hnone hid
      · obtain ⟨it, hfind, hit⟩ := Option.map_eq_some_iff.mp htop
        exact absurd ⟨it, List.mem_of_find?_eq_some hfind, hit⟩ hnot
      · rw [hx, Option.map_some] at hposition
        cases lo with
        | nil =>
          obtain ⟨rfl, rfl⟩ := List.cons.inj (hq.symm.trans hsplit)
          rw [if_pos rfl] at hposition
          right
          have hsplit' : t.pktQueue = [] ++ rest := hrest
          rw [hunread, unread_front htrim.sound.increasing hsplit' hposition]
        | cons y lo =>
          obtain ⟨rfl, rfl⟩ := List.cons.inj (hq.symm.trans hsplit)
          have hlt := h.before_lt hsplit p List.mem_cons_self
          rw [if_neg hlt.ne'] at hposition
          left
          rw [hunread, unread_split htrim.sound.increasing hposition hrest]
    · rw [hposition, ne_eq, Option.map_eq_none_iff]
      exact hid

structure Loses (id : ℕ) (s t : Queue) (gone : List Packet) : Prop where
  split : s.unread id = gone ++ t.unread id
  gone : ∀ p ∈ gone, p ∉ t.pktQueue
  position : t.position? id ≠ none

theorem Loses.none (hid : t.position? id ≠ none) (hunread : s.unread id = t.unread id) :
    Loses id s t [] := ⟨hunread, List.forall_mem_nil _, hid⟩

theorem deleteUntil_loses (h : Sound s) (hid : s.position? id ≠ none) (hq : s.pktQueue = l)
    (hstep : deleteUntil target l s = some t) : ∃ gone, Loses id s t gone := by
  induction l generalizing s with
  | nil => contradiction
  | cons p rest ih =>
    unfold deleteUntil at hstep
    split at hstep
    · obtain rfl := Option.some.inj hstep
      exact ⟨[], .none hid rfl⟩
    · obtain ⟨u, hdelete, hstep⟩ := Option.bind_eq_some_iff.mp hstep
      obtain ⟨htrim, hrest⟩ := deletePacket_trims h hq hdelete
      obtain ⟨hunread, hid'⟩ := deletePacket_unread h hid hq hdelete
      obtain ⟨gone, hlose⟩ := ih htrim.sound hid' hrest hstep
      rcases hunread with hsame | hgone
      · exact ⟨gone, hsame.trans hlose.split, hlose.gone, hlose.position⟩
      · refine ⟨p :: gone, ?_, List.forall_mem_cons.mpr ⟨?_, hlose.gone⟩, hlose.position⟩
        · rw [hgone, hlose.split, List.cons_append]
        · intro hmem
          have hbehind : p ∈ rest := by
            have hsuffix := (deleteUntil_trims htrim.sound hrest hstep).1.suffix
            exact hrest ▸ hsuffix.subset hmem
          have hlt := (List.pairwise_cons.mp (hq ▸ h.increasing)).1 p hbehind
          exact lt_irrefl _ hlt

theorem trimGop_loses {interrupted : Bool} (h : Sound s) (hid : s.position? id ≠ none)
    (hstep : trimGop add interrupted s = some t) : ∃ gone, Loses id s t gone := by
  unfold trimGop at hstep
  split at hstep
  · obtain rfl := Option.some.inj hstep
    exact ⟨[], .none hid rfl⟩
  · obtain ⟨found, -, hstep⟩ := Option.bind_eq_some_iff.mp hstep
    cases found with
    | none =>
      obtain rfl := Option.some.inj hstep
      exact ⟨[], .none hid rfl⟩
    | some target => exact deleteUntil_loses h hid rfl hstep

structure Receives (id : ℕ) (add : Packet) (s t : Queue) (gone kept : List Packet) : Prop where
  sound : Sound t
  before : s.unread id = gone ++ kept
  after : t.unread id = kept ++ [add]
  gone : ∀ p ∈ gone, p ∉ t.pktQueue
  position : t.position? id ≠ none
  index : add.queueIndex = s.nextQueueIndex
  next : t.nextQueueIndex = s.nextQueueIndex + 1
  accepted : t.history.accepted = s.history.accepted ++ [add]
  running : s.deleting = false ∧ s.zmTerminate = false

theorem admits_running (h : s.admits p = some true) :
    s.deleting = false ∧ s.zmTerminate = false := by
  unfold admits at h
  split at h
  · exact absurd (Option.some.inj h) nofun
  · next hnot => exact Bool.or_eq_false_iff.mp (Bool.not_eq_true _ ▸ hnot)

/-- A queue is full behind a packet only if there was no room for it. -/
theorem full_of_push (hpush : Pushes add s t)
    (hmax : t.maxVideoPacketCount = s.maxVideoPacketCount)
    (hcount : t.packetCounts add.streamIndex = s.packetCounts add.streamIndex + 1)
    (hfull : t.full add = true) : s.isVideo add = true ∧ 0 < s.maxVideoPacketCount ∧
      s.maxVideoPacketCount ≤ s.packetCounts s.videoStreamId := by
  obtain ⟨hvideo, hover⟩ := Bool.and_eq_true_iff.mp hfull
  rw [isVideo, hpush.video] at hvideo
  have hstream : add.streamIndex = s.videoStreamId := of_decide_eq_true hvideo
  have hlimit := of_decide_eq_true hover
  rw [hmax, hpush.video, ← hstream, hcount] at hlimit
  refine ⟨hvideo, hlimit.1, ?_⟩
  rw [← hstream]
  omega

theorem Cuts.last_mem (h : Cuts s t) (hq : s.pktQueue = l ++ [add]) : add ∈ t.pktQueue := by
  have hne : t.pktQueue ≠ [] := by
    apply h.nonempty
    rw [hq]
    exact List.append_ne_nil_of_right_ne_nil _ nofun
  obtain ⟨gone, hsplit⟩ := h.suffix
  have hlast := congrArg List.getLast? (hsplit.trans hq)
  rw [List.getLast?_append_of_ne_nil _ hne, List.getLast?_concat] at hlast
  exact List.mem_of_getLast? hlast

theorem Loses.kept {gone : List Packet} (h : Loses id s t gone) (hsplit : s.unread id = l ++ [add])
    (hadd : add ∈ t.pktQueue) : ∃ kept, l = gone ++ kept ∧ t.unread id = kept ++ [add] := by
  rcases List.append_eq_append_iff.mp (hsplit.symm.trans h.split) with
    ⟨behind, hgone, hlast⟩ | ⟨kept, hl, hkept⟩
  · cases behind with
    | nil => exact ⟨[], by rw [hgone, List.append_nil, List.append_nil], hlast.symm⟩
    | cons p behind =>
      obtain ⟨rfl, -⟩ := List.cons.inj hlast
      have hmem : add ∈ gone := hgone ▸ List.mem_append_right _ List.mem_cons_self
      exact absurd hadd (h.gone add hmem)
  · exact ⟨kept, hl, hkept⟩

theorem queuePacket_receives {packet : Packet} {interrupted b : Bool} (h : Sound s)
    (hid : s.position? id ≠ none) (hstep : queuePacket packet interrupted s = some (b, t)) :
    t = s ∨ ∃ gone kept,
      Receives id { packet with queueIndex := s.nextQueueIndex } s t gone kept ∧
        (s.roomy (.queuePacket packet interrupted) = true → gone = []) := by
  obtain ⟨admitted, hadmits, hstep⟩ := Option.bind_eq_some_iff.mp hstep
  cases admitted with
  | false =>
    obtain ⟨-, rfl⟩ := Prod.mk.inj (Option.some.inj hstep)
    exact .inl rfl
  | true =>
    obtain ⟨u, hu, hstep⟩ := Option.bind_eq_some_iff.mp hstep
    have hpush := pushBack_pushes h rfl hu
    obtain ⟨hits, -, -, hmax, hcount⟩ := pushBack_fields hu
    obtain ⟨hunread, hid'⟩ := pushBack_unread h hid hpush hits
    have hrunning := admits_running hadmits
    right
    split at hstep
    · next hfull =>
      obtain ⟨v, hv, hstep⟩ := Option.bind_eq_some_iff.mp hstep
      obtain ⟨-, rfl⟩ := Prod.mk.inj (Option.some.inj hstep)
      have hwarned := ((Cuts.refl hpush.sound).of_flags u.maxKeyframeInterval
        u.clearPacketsPending u.zmTerminate (if u.warnedCount = 0 then 1 else u.warnedCount)).sound
      have hcut := trimGop_cuts hwarned hv
      obtain ⟨gone, hlose⟩ := trimGop_loses hwarned hid' hv
      obtain ⟨kept, hbefore, hafter⟩ := hlose.kept hunread (hcut.last_mem hpush.packets)
      refine ⟨gone, kept, ⟨hcut.sound, hbefore, hafter, hlose.gone, hlose.position, rfl,
        hcut.keeps.next.trans hpush.next,
        congrArg History.accepted (hcut.keeps.history.trans hpush.history), hrunning⟩, ?_⟩
      intro hroomy
      obtain ⟨hvideo, hlimit⟩ := full_of_push hpush hmax hcount hfull
      rw [roomy, decide_eq_true hlimit, Bool.and_true, Bool.not_eq_true'] at hroomy
      exact absurd (hvideo.symm.trans hroomy) nofun
    · obtain ⟨-, rfl⟩ := Prod.mk.inj (Option.some.inj hstep)
      have hwarned := ((Cuts.refl hpush.sound).of_flags u.maxKeyframeInterval
        u.clearPacketsPending u.zmTerminate (u.warnedCount - 1)).sound
      exact ⟨[], s.unread id, ⟨hwarned, rfl, hunread, List.forall_mem_nil _, hid', rfl,
        hpush.next, congrArg History.accepted hpush.history, hrunning⟩, fun _ ↦ rfl⟩

end ZoneMinder.PacketQueue
