import ZoneMinder.Mp4Sidx.Scan

namespace ZoneMinder.Mp4Sidx

open Lib

/-- A traf of the video track that states its decode time. -/
structure VideoTraf (file : Bytes) (track : VideoTrack) (traf : Box) : Prop where
  type : traf.type = fourCC 't' 'r' 'a' 'f'
  parsed : ∃ wantCts parsed, parseTraf file traf track wantCts = some parsed ∧
    parsed.trackId = track.id ∧ 0 ≤ parsed.tfdt
  tfdt : (findBox file traf.body traf.endOffset (fourCC 't' 'f' 'd' 't')).isSome

/-- A moof and the mdat that follows it, with a traf of the video track in the moof. -/
structure Whole (file : Bytes) (stop : ℤ) (track : VideoTrack) (fragment : Fragment)
    (moof mdat : Box) : Prop where
  read : readBox file fragment.offset stop = some moof
  type : moof.type = fourCC 'm' 'o' 'o' 'f'
  readNext : readBox file moof.endOffset stop = some mdat
  typeNext : mdat.type = fourCC 'm' 'd' 'a' 't'
  size : fragment.size = moof.size + mdat.size
  traf : ∃ traf ∈ (boxes file moof.body moof.endOffset).1, VideoTraf file track traf

variable {file : Bytes} {start stop : ℤ} {track : VideoTrack} {fragments : List Fragment}
  {fragment base : Fragment} {moof mdat traf : Box} {wantCts : Bool} {children trafs : List Box}
  {parsed : Traf}

theorem readTable_tfdt {table : Bytes} {version : UInt8} {flags : UInt32} {count perSample : ℕ}
    {t : Traf} : (readTable table version flags count perSample wantCts t).tfdt = t.tfdt := by
  unfold readTable
  by_cases hduration : hasFlag flags trunSampleDuration = true
  · rw [if_pos hduration]
    dsimp only
    split
    · rfl
    · rfl
  · rw [if_neg hduration]
    dsimp only
    split
    · rfl
    · rfl

theorem parseTrun_tfdt {duration flags : UInt32} {t t' : Traf} {trun : Box}
    (h : parseTrun file duration flags wantCts t trun = some t') : t'.tfdt = t.tfdt := by
  unfold parseTrun at h
  obtain ⟨head, -, h⟩ := Option.bind_eq_some_iff.mp h
  extract_lets version flags' count entry entry' perSample next at h
  split at h
  · contradiction
  have hnext : ∀ t₁, next t₁ = some t' → t'.tfdt = t₁.tfdt := by
    intro t₁ h
    unfold next at h
    extract_lets t₂ at h
    have ht₂ : t₂.tfdt = t₁.tfdt := by
      unfold t₂
      split
      · rfl
      · rfl
    split at h
    · split at h
      · contradiction
      · obtain ⟨table, -, rfl⟩ := Option.map_eq_some_iff.mp h
        exact readTable_tfdt.trans ht₂
    · obtain rfl := Option.some.inj h
      exact ht₂
  split at h
  · obtain ⟨t₁, ht₁, h⟩ := Option.bind_eq_some_iff.mp h
    obtain ⟨sampleFlags, -, rfl⟩ := Option.map_eq_some_iff.mp ht₁
    have htfdt := hnext _ h
    exact htfdt
  · exact hnext t h

theorem parseTruns_tfdt {duration flags : UInt32} {t t' : Traf} {truns : List Box}
    (h : truns.foldlM (parseTrun file duration flags wantCts) t = some t') : t'.tfdt = t.tfdt := by
  induction truns generalizing t with
  | nil =>
    obtain rfl := Option.some.inj h
    rfl
  | cons trun truns ih =>
    rw [List.foldlM_cons] at h
    obtain ⟨t₁, ht₁, h⟩ := Option.bind_eq_some_iff.mp h
    exact (ih h).trans (parseTrun_tfdt ht₁)

/-- A decode time that is not negative comes from a tfdt. -/
theorem parseTraf_tfdt (h : parseTraf file traf track wantCts = some parsed)
    (htfdt : 0 ≤ parsed.tfdt) :
    (findBox file traf.body traf.endOffset (fourCC 't' 'f' 'd' 't')).isSome := by
  unfold parseTraf at h
  obtain ⟨tfhd, -, h⟩ := Option.bind_eq_some_iff.mp h
  obtain ⟨head, -, h⟩ := Option.bind_eq_some_iff.mp h
  obtain ⟨tfdt, hparse, h⟩ := Option.bind_eq_some_iff.mp h
  dsimp only at h
  split at h
  · have hsame : parsed.tfdt = tfdt := parseTruns_tfdt h
    cases hfind : findBox file traf.body traf.endOffset (fourCC 't' 'f' 'd' 't') with
    | none =>
      rw [hfind] at hparse
      obtain rfl := Option.some.inj hparse
      omega
    | some box => rfl
  · contradiction

/-- Where the loop over the trafs ends with a video fragment, one of them is a traf of the video
track. -/
theorem scanTrafs_video {video : Option Fragment}
    (h : trafs.foldlM (scanTraf file track wantCts base) video = some (some fragment)) :
    video = some fragment ∨ ∃ traf ∈ trafs, ∃ parsed, parseTraf file traf track wantCts = some parsed ∧
      parsed.trackId = track.id ∧ 0 ≤ parsed.tfdt := by
  induction trafs generalizing video with
  | nil => exact .inl (Option.some.inj h)
  | cons traf trafs ih =>
    rw [List.foldlM_cons] at h
    obtain ⟨video', hscan, h⟩ := Option.bind_eq_some_iff.mp h
    rcases ih h with hsame | ⟨t, ht, hvideo⟩
    · obtain ⟨parsed, hparsed, hscan⟩ := Option.bind_eq_some_iff.mp hscan
      split at hscan
      · obtain rfl := Option.some.inj hscan
        exact .inl hsame
      · next hid =>
        split at hscan
        · contradiction
        · next htfdt =>
          exact .inr ⟨traf, List.mem_cons_self, parsed, hparsed, not_not.mp hid, not_lt.mp htfdt⟩
    · exact .inr ⟨t, List.mem_cons_of_mem traf ht, hvideo⟩

theorem scanFragment_whole (h : scanFragment file track wantCts moof mdat = some fragment)
    (hmoof : readBox file start stop = some moof)
    (hmdat : readBox file moof.endOffset stop = some mdat) :
    Whole file stop track fragment moof mdat := by
  obtain ⟨hoffset, hsize, -⟩ := scanFragment_spec h
  unfold scanFragment at h
  split at h
  · contradiction
  next htypes =>
  obtain ⟨hmoofType, hmdatType⟩ := not_or.mp htypes
  dsimp only at h
  split at h
  · rcases scanTrafs_video (Option.join_eq_some_iff.mp h) with hnone | ⟨traf, hmem, parsed, hvideo⟩
    · contradiction
    obtain ⟨hchild, htraf⟩ := List.mem_filter.mp hmem
    obtain ⟨hparsed, hid, htfdt⟩ := hvideo
    refine ⟨?_, not_not.mp hmoofType, hmdat, not_not.mp hmdatType, hsize, traf, hchild, ?_⟩
    · rw [hoffset, (readBox_spec hmoof).2.1]
      exact hmoof
    · exact ⟨of_decide_eq_true htraf, ⟨wantCts, parsed, hparsed, hid, htfdt⟩,
        parseTraf_tfdt hparsed htfdt⟩
  · contradiction

theorem pairFragments_whole (h : pairFragments file track wantCts children = some fragments)
    (ht : Tiled (readBox file · stop) Box.endOffset start children stop) :
    ∀ f ∈ fragments, ∃ moof mdat, Whole file stop track f moof mdat := by
  fun_induction pairFragments file track wantCts children generalizing fragments start with
  | case1 =>
    obtain rfl := Option.some.inj h
    exact fun f hf ↦ by contradiction
  | case2 => contradiction
  | case3 wantCts moof mdat rest ih =>
    obtain ⟨fragment, hfragment, h⟩ := Option.bind_eq_some_iff.mp h
    obtain ⟨fragments', hrest, h⟩ := Option.bind_eq_some_iff.mp h
    obtain rfl := Option.some.inj h
    obtain ⟨hmoof, hmdat, ht⟩ := ht
    intro f hf
    rcases List.mem_cons.mp hf with rfl | hf
    · exact ⟨moof, mdat, scanFragment_whole hfragment hmoof hmdat⟩
    · exact ih hrest ht f hf

/-- Every walk over boxes ends. What is accepted is whole fragments side by side, each a moof and an
mdat with a traf of the video track that states its decode time; and what is not is refused. -/
theorem scanFragments_whole (file : Bytes) (start stop : ℤ) (track : VideoTrack) :
    (∀ pos limit,
      Ends (readBox file · limit) Box.endOffset 8 limit pos (boxes file pos limit)) ∧
    (∀ fragments, scanFragments file start stop track = some fragments →
      fragments ≠ [] ∧ Tiles start fragments stop ∧
        ∀ f ∈ fragments, ∃ moof mdat, Whole file stop track f moof mdat) ∧
    ((¬∃ fragments, fragments ≠ [] ∧ Tiles start fragments stop ∧
        ∀ f ∈ fragments, ∃ moof mdat, Whole file stop track f moof mdat) →
      scanFragments file start stop track = none) := by
  have hsound : ∀ fragments, scanFragments file start stop track = some fragments →
      fragments ≠ [] ∧ Tiles start fragments stop ∧
        ∀ f ∈ fragments, ∃ moof mdat, Whole file stop track f moof mdat := by
    intro fragments h
    obtain ⟨htiles, hne, -⟩ := scanFragments_tiles h
    refine ⟨hne, htiles, ?_⟩
    unfold scanFragments at h
    dsimp only at h
    split at h
    next hcond =>
      obtain ⟨hok, hstop⟩ := hcond
      obtain ⟨fragments', hpairs, h⟩ := Option.bind_eq_some_iff.mp h
      split at h
      · contradiction
      · obtain rfl := Option.some.inj h
        obtain ⟨last, ht, -⟩ := @tiled_of_segments _ _ _ _ _ start (boxes file start stop).1 [] _
          readBox_lt (by omega) (Prod.ext (List.append_nil _).symm rfl)
        exact pairFragments_whole hpairs (ht.last_eq.symm.trans hstop ▸ ht)
    · contradiction
  refine ⟨fun pos limit ↦ segments_ends readBox_lt (by omega) pos, hsound, ?_⟩
  intro hnot
  cases hscan : scanFragments file start stop track with
  | none => rfl
  | some fragments => exact absurd ⟨fragments, hsound fragments hscan⟩ hnot

/-- A moof of one traf with one sample of 3000 ticks, and an mdat of a byte. -/
def sampleFragment (tfdt : UInt32) : Bytes :=
  wb32 68 ++ (fourCC 'm' 'o' 'o' 'f' ++ (wb32 60 ++ (fourCC 't' 'r' 'a' 'f' ++
    (wb32 16 ++ (fourCC 't' 'f' 'h' 'd' ++ (wb32 0 ++ (wb32 1 ++
      (wb32 16 ++ (fourCC 't' 'f' 'd' 't' ++ (wb32 0 ++ (wb32 tfdt ++
        (wb32 20 ++ (fourCC 't' 'r' 'u' 'n' ++ (wb32 0x100 ++ (wb32 1 ++ (wb32 3000 ++
          (wb32 9 ++ (fourCC 'm' 'd' 'a' 't' ++ [7]))))))))))))))))))

theorem scanFragments_whole_two :
    let file := sampleFragment 90000 ++ sampleFragment 93000
    ∃ fragments, scanFragments file 0 154 ⟨1, 90000, 0, 0⟩ = some fragments ∧
      fragments.map (fun f ↦ (f.offset, f.size, f.tfdt, f.trunDuration)) =
        [(0, 77, 90000, 3000), (77, 77, 93000, 3000)] ∧
      Tiles 0 fragments 154 ∧
        ∀ f ∈ fragments, ∃ moof mdat, Whole file 154 ⟨1, 90000, 0, 0⟩ f moof mdat := by
  intro file
  have hscan : ((scanFragments file 0 154 ⟨1, 90000, 0, 0⟩).any fun fragments ↦
      fragments.map (fun f ↦ (f.offset, f.size, f.tfdt, f.trunDuration)) =
        [(0, 77, 90000, 3000), (77, 77, 93000, 3000)]) = true := by
    decide +kernel
  obtain ⟨fragments, hscan, hmap⟩ := (Option.any_eq_true _ _).mp hscan
  obtain ⟨-, htiles, hwhole⟩ :=
    (scanFragments_whole file 0 154 ⟨1, 90000, 0, 0⟩).2.1 fragments hscan
  exact ⟨fragments, hscan, of_decide_eq_true hmap, htiles, hwhole⟩

end ZoneMinder.Mp4Sidx
