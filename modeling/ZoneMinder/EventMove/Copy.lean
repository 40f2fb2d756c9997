import ZoneMinder.EventMove.Move
import ZoneMinder.Lib.Run

namespace ZoneMinder.EventMove

open Lib

section

variable {sys : System} {f : Fates} {w v : World} {new : Storage} {oldPath newPath : Path}
  {files done : List (Name × Content)} {file : Name × Content}

/-- The directory holds every file of the event. -/
def Holds (w : World) (path : Path) (F : Files) : Prop :=
  ∀ name content, F.lookup name = some content → (w.files path).lookup name = some content

/-- The storage area that the committed row names holds the event. -/
def Safe (sys : System) (F : Files) (w : World) : Prop :=
  ∃ path, sys.area w.committed = some path ∧ Holds w path F

/-- Neither the row nor the old copy has been touched. -/
structure Intact (w : World) (oldPath : Path) (v : World) : Prop where
  committed : v.committed = w.committed
  pending : v.pending = none
  files : v.files oldPath = w.files oldPath

/-- Some files have come to the new path, unless a regular file stands there. -/
structure Brought (w : World) (oldPath newPath : Path) (done : List (Name × Content))
    (v : World) : Prop where
  intact : Intact w oldPath v
  dir : ¬w.entry newPath = .file → ¬v.entry newPath = .file
  files : ¬w.entry newPath = .file →
    ∀ file ∈ done, (v.files newPath).lookup file.1 = some file.2

def Single (files : List (Name × Content)) : Prop := ∀ a ∈ files, ∀ b ∈ files, a.1 = b.1 → a = b

theorem mem_listed {path : Path} {name : Name} {content : Content} :
    (name, content) ∈ System.listed w path ↔
      (w.files path).lookup name = some content ∧ dotted name = false := by
  rw [System.listed, List.mem_filter, List.mem_map, ← Option.mem_def, AList.mem_lookup_iff]
  constructor
  · rintro ⟨⟨e, he, heq⟩, hdot⟩
    obtain ⟨rfl, rfl⟩ := Prod.mk.inj heq
    exact ⟨he, by simpa using hdot⟩
  · rintro ⟨he, hdot⟩
    exact ⟨⟨_, he, rfl⟩, by simpa using hdot⟩

namespace Intact

theorem refl (hidle : w.pending = none) : Intact w oldPath w := ⟨rfl, hidle, rfl⟩

theorem update (h : Intact w oldPath v) (g : Entry → Entry)
    (hfiles : newPath = oldPath → ∀ e, (g e).files = e.files) :
    Intact w oldPath (v.update newPath g) := by
  refine ⟨h.committed, h.pending, ?_⟩
  rw [← h.files, World.files, World.files]
  by_cases hpath : newPath = oldPath
  · subst hpath
    rw [World.update_entry, hfiles rfl]
  · rw [World.update_entry_ne (Ne.symm hpath)]

theorem commit (h : Intact w oldPath v) (ok : Bool) : Intact w oldPath (v.commit ok) := by
  refine ⟨?_, rfl, h.files⟩
  rw [← h.committed]
  cases ok with
  | false => rfl
  | true =>
    show v.pending.getD v.committed = v.committed
    rw [h.pending]
    rfl

theorem rollback (h : Intact w oldPath v) : Intact w oldPath v.rollback :=
  ⟨h.committed, rfl, h.files⟩

end Intact

namespace Brought

theorem start (hidle : w.pending = none) : Brought w oldPath newPath [] w :=
  ⟨.refl hidle, id, by simp⟩

theorem nothing (h : Brought w oldPath newPath done v) : Brought w oldPath newPath [] v :=
  ⟨h.intact, h.dir, by simp⟩

theorem made (h : Brought w oldPath newPath [] v) (path : Path) :
    Brought w oldPath newPath [] (v.update path Entry.made) := by
  refine ⟨h.intact.update _ fun _ e ↦ Entry.files_made, ?_, by simp⟩
  intro hdir
  by_cases hpath : newPath = path
  · subst hpath
    rw [World.update_entry]
    exact Entry.made_ne_file (h.dir hdir)
  · rw [World.update_entry_ne hpath]
    exact h.dir hdir

theorem put (hne : ¬newPath = oldPath) (h : Intact w oldPath v)
    (hdir : ¬w.entry newPath = .file → ¬v.entry newPath = .file)
    (hfiles : ¬w.entry newPath = .file →
      ∀ a ∈ done, ¬a.1 = file.1 → (v.files newPath).lookup a.1 = some a.2)
    (hsingle : Single (done ++ [file])) :
    Brought w oldPath newPath (done ++ [file])
      (v.update newPath fun e ↦ e.put file.1 file.2) := by
  refine ⟨h.update _ fun hpath ↦ absurd hpath hne, ?_, ?_⟩
  · intro hw
    rw [World.update_entry]
    exact Entry.put_ne_file (hdir hw)
  · intro hw a ha
    rw [World.files, World.update_entry]
    by_cases hname : a.1 = file.1
    · rw [hsingle a ha file (by simp) hname]
      exact Entry.lookup_put (hdir hw)
    · rw [Entry.lookup_put_ne hname]
      rcases List.mem_append.mp ha with ha | ha
      · exact hfiles hw a ha hname
      · exact absurd (congrArg Prod.fst (List.mem_singleton.mp ha)) hname

end Brought

end

variable {sys : System} {f : Fates} {w : World} {new : Storage} {oldPath newPath : Path}
  {files done : List (Name × Content)} {file : Name × Content}

structure Uploads (f : Fates) (w : World) (new : Storage) (oldPath : Path) : Prop where
  s3fs : new.s3fs = true
  connect : f.connect = true
  upload : plain oldPath = true → ∀ file ∈ System.listed w oldPath, f.upload file.1 = true

structure CopiesFiles (f : Fates) (w : World) (oldPath : Path) : Prop where
  makePath : f.makePath = true
  openDir : f.openDir = true
  copy : ∀ file ∈ System.listed w oldPath, f.copy file.1 = true

/-- Nothing that `CopyTo` asks or does fails. -/
structure Copies (sys : System) (f : Fates) (w : World) (new : Storage) : Prop where
  canEdit : f.canEdit = true
  source : System.present w (sys.area w.row) = true
  id : ¬new.id = none
  other : ¬new.id.getD 0 = w.row.getD 0
  path : falsy new.path = false
  root : new.s3fs = true ∨ (w.entry new.path).present = true ∨ f.mkdir = true
  old : (sys.storage w.row).id.getD 0 = w.row.getD 0
  ne : ¬sys.eventPath new = sys.eventPath (sys.storage w.row)
  files : Uploads f w new (sys.eventPath (sys.storage w.row)) ∨
    CopiesFiles f w (sys.eventPath (sys.storage w.row))

/-- `CopyTo` touches neither the row nor the old files, and where it returns no error every file
that is listed stands at the new path. -/
structure Copied (sys : System) (f : Fates) (w : World) (new : Storage) (r : Option Error)
    (v : World) : Prop where
  intact : Intact w (sys.eventPath (sys.storage w.row)) v
  copies : r = none → Copies sys f w new
  brought : r = none → plain (sys.eventPath (sys.storage w.row)) = true →
    Brought w (sys.eventPath (sys.storage w.row)) (sys.eventPath new)
      (System.listed w (sys.eventPath (sys.storage w.row))) v

theorem Copied.error {v : World} (h : Intact w (sys.eventPath (sys.storage w.row)) v) (e : Error) :
    Copied sys f w new (some e) v := ⟨h, nofun, nofun⟩

end ZoneMinder.EventMove
