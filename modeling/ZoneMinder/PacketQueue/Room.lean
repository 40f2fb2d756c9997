import ZoneMinder.PacketQueue.Invariant

namespace ZoneMinder.PacketQueue

open Lib Queue

namespace Queue

def nextVideo (s : Queue) (add : Packet) (rest : List Packet) : Option Packet :=
  (rest.takeWhile fun q ↦ q ≠ add ∧ q.position ≤ s.minIterator).find? s.isVideo

/-- The walk sets out where no video packet can be spared, and comes to a keyframe first. -/
def hasty (s : Queue) (add : Packet) : Bool :=
  let video := s.packetCounts s.videoStreamId
  let limit := s.preEventVideoPacketCount + s.tailCount add
  match s.pktQueue with
  | [] => false
  | p :: rest => !s.deleting && s.keepKeyframes && s.mayClear add p video &&
      decide (p.position < s.minIterator) && decide (video ≤ limit) &&
      (s.nextVideo add rest).any (·.keyframe) && (s.isVideo p || decide (video < limit))

end Queue

/-- What clearPackets promises: whatever it removes is a prefix, enough video packets stay, and so
does everything from the earliest iterator on. -/
structure Spares (s s' : Queue) (kept : ℤ) : Prop where
  suffix : s'.pktQueue <:+ s.pktQueue
  iterators : ∀ p ∈ s.pktQueue, s.minIterator ≤ p.position → p ∈ s'.pktQueue
  room : s'.pktQueue ≠ s.pktQueue → kept ≤ s'.pktQueue.countP s.isVideo

variable {s s' t : Queue} {p q add target : Packet} {rest l gone before after : List Packet}
  {limit video toDelete kept : ℤ} {earliest : WithTop ℕ} {interval m m' n : ℕ}
  {nextFront : Option Packet}

theorem popFront_eq (hpop : popFront p rest s = some t) :
    t.pktQueue = rest ∧ t.videoStreamId = s.videoStreamId := by
  unfold popFront addCount at hpop
  split at hpop
  · obtain rfl := Option.some.inj hpop
    exact ⟨rfl, rfl⟩
  · contradiction

theorem isVideo_congr (h : t.videoStreamId = s.videoStreamId) : t.isVideo = s.isVideo := by
  funext p
  rw [isVideo, isVideo, h]

theorem popUntil_eq (hq : s.pktQueue = l) (hp : popUntil target l s = some t) :
    t.pktQueue = l.dropWhile (· ≠ target) := by
  induction l generalizing s with
  | nil => contradiction
  | cons p rest ih =>
    unfold popUntil at hp
    split at hp
    next heq =>
      obtain rfl := Option.some.inj hp
      rw [hq, List.dropWhile_cons_of_neg (by simp [heq])]
    next hne =>
      obtain ⟨u, hpop, hp⟩ := Option.bind_eq_some_iff.mp hp
      rw [List.dropWhile_cons_of_pos (by simp [hne])]
      exact ih (popFront_eq hpop).1 hp

theorem Sound.before_lt (h : Sound s) (hq : s.pktQueue = before ++ target :: after) :
    ∀ q ∈ before, q.position < target.position := by
  intro q hmem
  have hinc := h.increasing
  rw [hq] at hinc
  exact position_lt.mpr
    ((List.pairwise_append.mp hinc).2.2 q hmem target List.mem_cons_self)

theorem Sound.dropWhile_ne (h : Sound s) (hq : s.pktQueue = before ++ target :: after) :
    s.pktQueue.dropWhile (· ≠ target) = target :: after := by
  have hne : ∀ q ∈ before, decide (q ≠ target) = true := by
    intro q hmem
    apply decide_eq_true
    rintro rfl
    exact lt_irrefl _ (h.before_lt hq q hmem)
  rw [hq, List.dropWhile_append_of_pos hne, List.dropWhile_cons_of_neg (by simp)]

/-- Without keyframes to keep, a packet goes only while more than enough video packets are there. -/
theorem dropOld_split (h : Sound s) (hq : s.pktQueue = l)
    (hit : ∀ it ∈ s.iterators, earliest ≤ it.position)
    (hd : dropOld add limit earliest l s = some (n, t)) :
    ∃ gone, l = gone ++ t.pktQueue ∧ (∀ q ∈ gone, q.position < earliest) ∧
      (gone ≠ [] → limit ≤ t.pktQueue.countP s.isVideo) := by
  induction l generalizing s n with
  | nil => contradiction
  | cons p rest ih =>
    have hstay : s = t → ∃ gone, p :: rest = gone ++ t.pktQueue ∧
        (∀ q ∈ gone, q.position < earliest) ∧
        (gone ≠ [] → limit ≤ t.pktQueue.countP s.isVideo) := by
      rintro rfl
      exact ⟨[], hq.symm, fun q hq ↦ by contradiction, fun h ↦ absurd rfl h⟩
    unfold dropOld at hd
    split at hd
    · exact hstay (Prod.mk.inj (Option.some.inj hd)).2
    obtain ⟨video, hvideo, hd⟩ := Option.bind_eq_some_iff.mp hd
    split at hd
    · exact hstay (Prod.mk.inj (Option.some.inj hd)).2
    next hguard =>
    obtain ⟨hmore, hearly⟩ := not_or.mp hguard
    obtain ⟨u, hpop, hd⟩ := Option.bind_eq_some_iff.mp hd
    obtain ⟨⟨k, v⟩, hrec, he⟩ := Option.bind_eq_some_iff.mp hd
    obtain ⟨-, rfl⟩ := Prod.mk.inj (Option.some.inj he)
    obtain ⟨hrest, hid⟩ := popFront_eq hpop
    have hcount := h.video_count hvideo
    rw [hq, List.countP_cons] at hcount
    have hlt : p.position < earliest := not_le.mp hearly
    obtain ⟨htrim, -, hits⟩ := pop_trims h hq hpop (fun it hm ↦ ⟨it, hm, rfl, le_rfl⟩)
      fun it hm ↦ placed_rest h hq hm (hlt.trans_le (hit it hm)).ne'
    obtain ⟨gone, hsplit, hbefore, hroom⟩ := ih htrim.sound hrest (hits ▸ hit) hrec
    rw [isVideo_congr hid] at hroom
    refine ⟨p :: gone, congrArg (p :: ·) hsplit, ?_, ?_⟩
    · intro q hq
      rcases List.mem_cons.mp hq with rfl | hq
      · exact hlt
      · exact hbefore q hq
    · intro _
      cases gone with
      | nil =>
        rw [List.nil_append] at hsplit
        rw [← hsplit]
        split at hcount
        · omega
        · omega
      | cons g gone => exact hroom (List.cons_ne_nil g gone)

/-- The walk proposes a keyframe only where enough video packets are behind it. -/
theorem walkGops_room (hroom : limit < video - toDelete)
    (hw : walkGops s add video limit earliest l toDelete interval nextFront m =
      some (some target, m')) :
    nextFront = some target ∨ ∃ before after, l = before ++ target :: after ∧
      limit ≤ video - toDelete - before.countP s.isVideo - 1 := by
  induction l generalizing toDelete interval nextFront m with
  | nil => contradiction
  | cons p rest ih =>
    unfold walkGops at hw
    split at hw
    · exact .inl (Prod.mk.inj (Option.some.inj hw)).1
    split at hw
    · exact .inl (Prod.mk.inj (Option.some.inj hw)).1
    have hhere : (if p.keyframe then some p else nextFront) = some target →
        nextFront = some target ∨ ∃ before after, p :: rest = before ++ target :: after ∧
          limit ≤ video - toDelete - before.countP s.isVideo - 1 := by
      intro ht
      split at ht
      · obtain rfl := Option.some.inj ht
        refine .inr ⟨[], rest, rfl, ?_⟩
        rw [List.countP_nil]
        omega
      · exact .inl ht
    split at hw
    next hv =>
      dsimp only at hw
      split at hw
      · exact hhere (Prod.mk.inj (Option.some.inj hw)).1
      next hmore =>
        rcases ih (not_le.mp hmore) hw with ht | ⟨before, after, hsplit, hle⟩
        · exact hhere ht
        · refine .inr ⟨p :: before, after, congrArg (p :: ·) hsplit, ?_⟩
          rw [List.countP_cons, if_pos hv]
          push_cast
          omega
    next hv =>
      rcases ih hroom hw with ht | ⟨before, after, hsplit, hle⟩
      · exact .inl ht
      · refine .inr ⟨p :: before, after, congrArg (p :: ·) hsplit, ?_⟩
        rw [List.countP_cons, if_neg hv]
        exact hle

/-- Where none can be spared, the walk ends at the first video packet that it comes to. -/
theorem walkGops_close (hclose : video ≤ limit)
    (hw : walkGops s add video limit s.minIterator l 0 interval none m = some (nextFront, m')) :
    nextFront = (s.nextVideo add l).filter (·.keyframe) := by
  induction l generalizing interval m with
  | nil => contradiction
  | cons p rest ih =>
    unfold walkGops at hw
    rw [nextVideo]
    split at hw
    next hadd =>
      rw [List.takeWhile_cons_of_neg (by simp [hadd])]
      exact (Prod.mk.inj (Option.some.inj hw)).1.symm
    next hadd =>
    split at hw
    next hpast =>
      rw [List.takeWhile_cons_of_neg (by simp [not_le.mpr hpast])]
      exact (Prod.mk.inj (Option.some.inj hw)).1.symm
    next hpast =>
    rw [List.takeWhile_cons_of_pos (by simp [hadd, not_lt.mp hpast])]
    split at hw
    next hv =>
      rw [List.find?_cons_of_pos hv]
      dsimp only at hw
      rw [if_pos (by omega)] at hw
      rw [← (Prod.mk.inj (Option.some.inj hw)).1, Option.filter_some]
    next hv =>
      rw [List.find?_cons_of_neg hv]
      exact ih hw

theorem spares_same (h : s'.pktQueue = s.pktQueue) : Spares s s' kept where
  suffix := h ▸ List.suffix_rfl
  iterators _ hq _ := h ▸ hq
  room hne := absurd h hne

theorem spares_split (hsplit : s.pktQueue = gone ++ s'.pktQueue)
    (hbefore : ∀ q ∈ gone, q.position < s.minIterator)
    (hroom : gone ≠ [] → kept ≤ s'.pktQueue.countP s.isVideo) : Spares s s' kept where
  suffix := ⟨gone, hsplit.symm⟩
  iterators q hq hle := by
    rw [hsplit] at hq
    refine (List.mem_append.mp hq).resolve_left ?_
    intro hgone
    exact (hbefore q hgone).not_ge hle
  room hne := by
    apply hroom
    rintro rfl
    exact hne hsplit.symm

theorem tailCount_split (h : Sound s) (hq : s.pktQueue = before ++ add :: after) :
    s.tailCount add = after.countP s.isVideo := by
  have hnot : ∀ q ∈ after.reverse, decide (q ≠ add) = true := by
    intro q hmem
    have hinc := h.increasing
    rw [hq] at hinc
    have hlt := (List.pairwise_cons.mp (List.pairwise_append.mp hinc).2.1).1 q
      (List.mem_reverse.mp hmem)
    apply decide_eq_true
    rintro rfl
    exact lt_irrefl _ hlt
  rw [tailCount, hq, List.reverse_append, List.reverse_cons, List.append_assoc,
    List.takeWhile_append_of_pos hnot, List.singleton_append,
    List.takeWhile_cons_of_neg (by simp), List.append_nil, List.countP_reverse]

theorem nextVideo_split (hnext : s.nextVideo add rest = some target) :
    ∃ before after, rest = before ++ target :: after ∧ before.countP s.isVideo = 0 := by
  obtain ⟨-, before, after, hsplit, hnot⟩ := List.find?_eq_some_iff_append.mp hnext
  refine ⟨before, after ++ rest.dropWhile fun q ↦ q ≠ add ∧ q.position ≤ s.minIterator, ?_, ?_⟩
  · rw [← List.cons_append, ← List.append_assoc, ← hsplit, List.takeWhile_append_dropWhile]
  · apply List.countP_eq_zero.mpr
    intro q hmem
    simpa using hnot q hmem

theorem any_nextVideo_iff :
    (s.nextVideo add rest).any (·.keyframe) = true ↔
      ∃ q, (s.nextVideo add rest).filter (·.keyframe) = some q := by
  rw [Option.any_eq_true]
  constructor
  · rintro ⟨q, hq, hkey⟩
    exact ⟨q, Option.filter_eq_some_iff.mpr ⟨hq, hkey⟩⟩
  · rintro ⟨q, hfilter⟩
    exact ⟨q, Option.filter_eq_some_iff.mp hfilter⟩

/-- What the trimming leaves where it goes up to a packet of the queue. -/
theorem popUntil_split (h : Sound s) (hq : s.pktQueue = p :: rest)
    (hpop : popUntil target (p :: rest) { s with maxKeyframeInterval := m } = some t)
    (hle : target.position ≤ s.minIterator) (hrest : rest = before ++ target :: after) :
    s.pktQueue = (p :: before) ++ t.pktQueue ∧
      ∀ q ∈ p :: before, q.position < s.minIterator := by
  have hqueue : s.pktQueue = (p :: before) ++ target :: after := by rw [hq, hrest]; rfl
  have hdrop : t.pktQueue = s.pktQueue.dropWhile (· ≠ target) := by
    rw [hq]
    exact popUntil_eq (s := { s with maxKeyframeInterval := m }) hq hpop
  refine ⟨hqueue.trans (by rw [hdrop, h.dropWhile_ne hqueue]), fun q hmem ↦ ?_⟩
  exact (h.before_lt hqueue q hmem).trans_le hle

/-- The walk that set out with video packets to spare leaves enough of them. -/
theorem spares_of_roomy (hvideo : video = s.pktQueue.countP s.isVideo)
    (hqueue : s.pktQueue = (p :: before) ++ t.pktQueue)
    (hbefore : ∀ q ∈ p :: before, q.position < s.minIterator)
    (hroom : limit ≤ video - before.countP s.isVideo - 1) : Spares s t limit := by
  refine spares_split hqueue hbefore (fun _ ↦ ?_)
  rw [hqueue, List.countP_append, List.countP_cons] at hvideo
  split at hvideo
  · push_cast at hvideo
    omega
  · push_cast at hvideo
    omega

/-- The walk that set out with none to spare leaves enough of them exactly where it removed none. -/
theorem spares_iff_of_close (hvideo : video = s.pktQueue.countP s.isVideo)
    (hqueue : s.pktQueue = (p :: before) ++ t.pktQueue)
    (hbefore : ∀ q ∈ p :: before, q.position < s.minIterator)
    (hnone : before.countP s.isVideo = 0) (hclose : video ≤ limit) :
    Spares s t limit ↔ ¬(s.isVideo p = true ∨ video < limit) := by
  have hcount : video = (t.pktQueue.countP s.isVideo : ℤ) + if s.isVideo p then 1 else 0 := by
    rw [hvideo, hqueue, List.countP_append, List.countP_cons, hnone]
    split
    · push_cast
      omega
    · push_cast
      omega
  have hremoved : t.pktQueue ≠ s.pktQueue := by
    intro heq
    have hlen := congrArg List.length hqueue
    rw [heq, List.length_append, List.length_cons] at hlen
    omega
  rw [not_or]
  constructor
  · intro hspares
    have hroom := hspares.room hremoved
    split at hcount
    · omega
    next hfront => exact ⟨hfront, by omega⟩
  · rintro ⟨hfront, hmore⟩
    rw [if_neg hfront] at hcount
    exact spares_split hqueue hbefore fun _ ↦ by omega

theorem clearGops_spares {b : Bool} (h : Sound s) (hq : s.pktQueue = p :: rest)
    (hvideo : video = s.pktQueue.countP s.isVideo) (hne : p ≠ add)
    (hc : clearGops add p rest video s = some (b, s')) :
    Spares s s' (s.preEventVideoPacketCount + s.tailCount add) ↔
      ¬(p.position < s.minIterator ∧ video ≤ s.preEventVideoPacketCount + s.tailCount add ∧
        (s.nextVideo add rest).any (·.keyframe) = true ∧
        (s.isVideo p = true ∨ video < s.preEventVideoPacketCount + s.tailCount add)) := by
  obtain ⟨hstays, pending, rfl⟩ | ⟨hearly, nextFront, m, hw, hends⟩ := clearGops_cases hc
  · refine iff_of_true (spares_same rfl) fun hhasty ↦ ?_
    exact hhasty.1.not_ge (hstays.resolve_left hne)
  obtain ⟨rfl, rfl⟩ | ⟨target, t, rfl, hpop, rfl⟩ := hends
  · refine iff_of_true (spares_same rfl) ?_
    rintro ⟨-, hclose, hany, -⟩
    obtain ⟨q, hfilter⟩ := any_nextVideo_iff.mp hany
    cases (walkGops_close hclose hw).trans hfilter
  have hle := ((walkGops_target hw).resolve_left (by simp)).2.2
  by_cases hclose : video ≤ s.preEventVideoPacketCount + s.tailCount add
  · have hfilter := (walkGops_close hclose hw).symm
    have hany := any_nextVideo_iff.mpr ⟨target, hfilter⟩
    obtain ⟨before, after, hrest, hnone⟩ :=
      nextVideo_split (Option.filter_eq_some_iff.mp hfilter).1
    obtain ⟨hqueue, hbefore⟩ := popUntil_split h hq hpop hle hrest
    refine Iff.trans (spares_iff_of_close hvideo hqueue hbefore hnone hclose) (not_congr ?_)
    exact ⟨fun hshort ↦ ⟨hearly, hclose, hany, hshort⟩, fun hhasty ↦ hhasty.2.2.2⟩
  · obtain ⟨before, after, hrest, hroom⟩ :=
      (walkGops_room (by omega) hw).resolve_left (by simp)
    obtain ⟨hqueue, hbefore⟩ := popUntil_split h hq hpop hle hrest
    exact iff_of_true (spares_of_roomy hvideo hqueue hbefore (by omega))
      (fun hhasty ↦ hclose hhasty.2.1)

theorem hasty_eq_false (hq : s.pktQueue = p :: rest) : s.hasty add = false ↔
    ¬(s.deleting = false ∧ s.keepKeyframes = true ∧
      s.mayClear add p (s.packetCounts s.videoStreamId) = true ∧ p.position < s.minIterator ∧
      s.packetCounts s.videoStreamId ≤ s.preEventVideoPacketCount + s.tailCount add ∧
      (s.nextVideo add rest).any (·.keyframe) = true ∧ (s.isVideo p = true ∨
        s.packetCounts s.videoStreamId < s.preEventVideoPacketCount + s.tailCount add)) := by
  unfold hasty
  rw [hq, Bool.eq_false_iff]
  simp only [ne_eq, Bool.and_eq_true, Bool.not_eq_true', Bool.or_eq_true, decide_eq_true_eq,
    and_assoc]

/-- clearPackets keeps its promise but where it sets out with no video packet to spare and the
first one that it comes to is a keyframe. -/
theorem clearPackets_spares {b : Bool} (h : Reachable step .init s)
    (hq : s.pktQueue = before ++ add :: after) (hc : clearPackets add s = some (b, s')) :
    Spares s s' (s.preEventVideoPacketCount + after.countP s.isVideo) ↔ s.hasty add = false := by
  have hs := reachable_sound h
  rw [← tailCount_split hs hq]
  obtain ⟨p, rest, hfront⟩ : ∃ p rest, s.pktQueue = p :: rest :=
    List.exists_cons_of_ne_nil (by rw [hq]; simp)
  rw [hasty_eq_false hfront]
  unfold clearPackets at hc
  split at hc
  next hdeleting =>
    obtain ⟨-, rfl⟩ := Prod.mk.inj (Option.some.inj hc)
    refine iff_of_true (spares_same rfl) ?_
    rintro ⟨hnot, -⟩
    rw [hdeleting] at hnot
    cases hnot
  next hdeleting =>
  obtain ⟨video, hvideo, hc⟩ := Option.bind_eq_some_iff.mp hc
  have hcount := hs.video_count hvideo
  have hcounts : s.packetCounts s.videoStreamId = video := by
    unfold count? at hvideo
    split at hvideo
    · exact Option.some.inj hvideo
    · contradiction
  rw [hcounts]
  split at hc
  next hkeep =>
    rw [hfront] at hc
    dsimp only at hc
    split at hc
    next hmay =>
      have hne : p ≠ add := by
        simp only [mayClear, Bool.and_eq_true, decide_eq_true_eq] at hmay
        exact hmay.2
      rw [clearGops_spares hs hfront hcount hne hc]
      apply not_congr
      constructor
      · exact fun hhasty ↦ ⟨Bool.eq_false_of_not_eq_true hdeleting, hkeep, hmay, hhasty⟩
      · exact fun hhasty ↦ hhasty.2.2.2
    next hmay =>
      obtain ⟨-, rfl⟩ := Prod.mk.inj (Option.some.inj hc)
      exact iff_of_true (spares_same rfl) (fun hhasty ↦ hmay hhasty.2.2.1)
  next hkeep =>
    obtain ⟨⟨n, t⟩, hd, hc⟩ := Option.bind_eq_some_iff.mp hc
    obtain ⟨-, rfl⟩ := Prod.mk.inj (Option.some.inj hc)
    obtain ⟨gone, hsplit, hbefore, hroom⟩ :=
      dropOld_split hs rfl (fun it hit ↦ minIterator_le hit) hd
    exact iff_of_true (spares_split hsplit hbefore hroom) (fun hhasty ↦ hkeep hhasty.2.1)

theorem clearPackets_spares_gop : ∃ s s' b,
    clearPackets ⟨2, 0, true, 2⟩ s = some (b, s') ∧ s'.pktQueue ≠ s.pktQueue ∧
      Spares s s' (s.preEventVideoPacketCount + 0) := by
  obtain ⟨s, hrun, hs⟩ := Run.exists_of_any step (fun _ _ ↦ True) .init
    [.addStream, .setKeepKeyframes true, .setPreEventVideoPackets 1, .getVideoIt false,
      .queuePacket ⟨0, 0, true, 0⟩ false, .queuePacket ⟨0, 0, true, 1⟩ false,
      .queuePacket ⟨0, 0, true, 2⟩ false, .incrementIt 0 false, .incrementIt 0 false]
    (fun s ↦ s.pktQueue = [⟨0, 0, true, 0⟩, ⟨1, 0, true, 1⟩] ++ ⟨2, 0, true, 2⟩ :: [] ∧
      s.hasty ⟨2, 0, true, 2⟩ = false ∧
      (clearPackets ⟨2, 0, true, 2⟩ s).any (fun r ↦ r.2.pktQueue ≠ s.pktQueue) = true) (by decide)
  obtain ⟨hq, hcareful, hany⟩ := of_decide_eq_true hs
  obtain ⟨⟨b, s'⟩, hc, hremoved⟩ := (Option.any_eq_true _ _).mp hany
  exact ⟨s, s', b, hc, of_decide_eq_true hremoved,
    (clearPackets_spares ⟨_, hrun⟩ hq hc).mpr hcareful⟩

/-- Four video packets, of which the last three and the one behind the analysed packet are to be
kept: the first one is removed all the same. -/
theorem clearPackets_short : ∃ s s' b, Reachable step .init s ∧
    s.pktQueue = [⟨0, 0, true, 0⟩, ⟨1, 0, true, 1⟩] ++ ⟨2, 0, true, 2⟩ :: [⟨3, 0, false, 3⟩] ∧
      clearPackets ⟨2, 0, true, 2⟩ s = some (b, s') ∧
      ¬Spares s s' (s.preEventVideoPacketCount + [⟨3, 0, false, 3⟩].countP s.isVideo) := by
  obtain ⟨s, hrun, hs⟩ := Run.exists_of_any step (fun _ _ ↦ True) .init
    [.addStream, .setKeepKeyframes true, .setPreEventVideoPackets 3, .getVideoIt false,
      .queuePacket ⟨0, 0, true, 0⟩ false, .queuePacket ⟨0, 0, true, 1⟩ false,
      .queuePacket ⟨0, 0, true, 2⟩ false, .queuePacket ⟨0, 0, false, 3⟩ false,
      .incrementIt 0 false, .incrementIt 0 false]
    (fun s ↦ s.pktQueue =
        [⟨0, 0, true, 0⟩, ⟨1, 0, true, 1⟩] ++ ⟨2, 0, true, 2⟩ :: [⟨3, 0, false, 3⟩] ∧
      (clearPackets ⟨2, 0, true, 2⟩ s).any (fun r ↦ r.2.pktQueue ≠ s.pktQueue ∧
        r.2.pktQueue.countP s.isVideo <
          s.preEventVideoPacketCount + [⟨3, 0, false, 3⟩].countP s.isVideo) = true) (by decide)
  obtain ⟨hq, hany⟩ := of_decide_eq_true hs
  obtain ⟨⟨b, s'⟩, hc, hshort⟩ := (Option.any_eq_true _ _).mp hany
  obtain ⟨hremoved, hless⟩ := of_decide_eq_true hshort
  exact ⟨s, s', b, ⟨_, hrun⟩, hq, hc, fun hspares ↦ hless.not_ge (hspares.room hremoved)⟩

end ZoneMinder.PacketQueue
