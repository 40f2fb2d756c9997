import Mathlib.Data.Rat.Floor
import Mathlib.Logic.Function.Basic

namespace ZoneMinder.VideoStore

/-- The bytes of a std::string. -/
abbrev Text := List Char

def cStr (text : Text) : Text := text.takeWhile (· ≠ '\x00')

def decimal (n : ℤ) : Text := (toString n).toList

/-- A number of thousandths, halves rounded to the even neighbour as printf does. -/
def thousandths (x : ℚ) : ℕ :=
  let scaled := |x| * 1000
  let below := ⌊scaled⌋.toNat
  if scaled - below < 1 / 2 ∨ scaled - below = 1 / 2 ∧ below % 2 = 0 then below else below + 1

/-- %.3f -/
def fixed3 (x : ℚ) : Text :=
  let n := thousandths x
  (if x < 0 then ['-'] else []) ++ decimal (n / 1000 : ℕ) ++
    ['.', (n / 100 % 10).digitChar, (n / 10 % 10).digitChar, (n % 10).digitChar]

/-- A duration is a finite double. -/
structure Fragment where
  offset : ℤ
  size : ℤ
  duration : ℚ
  deriving DecidableEq

def m3u8TargetDuration (frags : List Fragment) : ℤ :=
  let maxDuration := frags.foldl (fun d frag ↦ if frag.duration > d then frag.duration else d) 0
  let targetDuration := ⌈maxDuration⌉
  if targetDuration < 1 then 1 else targetDuration

def m3u8Header (targetDuration : ℤ) (videoUrl : Text) (initSegmentEnd : ℤ)
    (isComplete : Bool) : Text :=
  "#EXTM3U\n".toList ++
  "#EXT-X-VERSION:7\n".toList ++
  "#EXT-X-TARGETDURATION:".toList ++ decimal targetDuration ++ "\n".toList ++
  "#EXT-X-MEDIA-SEQUENCE:0\n".toList ++
  "#EXT-X-PLAYLIST-TYPE:".toList ++ (if isComplete then "VOD" else "EVENT").toList ++
    "\n".toList ++
  "#EXT-X-MAP:URI=\"".toList ++ cStr videoUrl ++ "\",BYTERANGE=\"".toList ++
    decimal initSegmentEnd ++ "@0\"\n".toList

def m3u8Fragment (videoUrl : Text) (frag : Fragment) : Text :=
  "#EXTINF:".toList ++ fixed3 frag.duration ++ ",\n".toList ++
  "#EXT-X-BYTERANGE:".toList ++ decimal frag.size ++ "@".toList ++ decimal frag.offset ++
    "\n".toList ++
  cStr videoUrl ++ "\n".toList

def endlist : Text := "#EXT-X-ENDLIST\n".toList

/-- What the VideoStore remembers of the playlist it wrote last. -/
structure Manifest where
  fragmentsWritten : ℕ := 0
  targetDuration : ℤ := 0
  initSegmentEnd : ℤ := -1
  bytesWritten : ℕ := 0
  path : Text := []
  videoUrl : Text := []

/-- The content of every file that exists. -/
abbrev Files := Text → Option Text

structure Call where
  path : Text
  videoUrl : Text
  isComplete : Bool

/-- How the file operations of a call end. `lost` has the number of bytes at the end of each
fwrite that never reach the stream, and `left` is what is in the file when fclose fails. -/
structure Io where
  statted : Bool := true
  opened : Bool := true
  lost : List ℕ := []
  closed : Bool := true
  left : Text := []
  measured : Bool := true

section

variable (fragments : List Fragment) (initSegmentEnd : ℤ) (call : Call) (io : Io) (m : Manifest)
  (files : Files)

/-- What is on disk stands above the new fragments, as far as it is remembered. -/
def remembered : Bool :=
  !call.isComplete && decide (0 < m.fragmentsWritten) &&
  decide (m.fragmentsWritten ≤ fragments.length) &&
  decide (m3u8TargetDuration fragments = m.targetDuration) &&
  decide (initSegmentEnd = m.initSegmentEnd) &&
  decide (call.videoUrl = m.videoUrl) && decide (call.path = m.path)

def canAppend : Bool :=
  remembered fragments initSegmentEnd call m &&
  (io.statted && (files (cStr call.path)).map List.length == some m.bytesWritten)

def upToDate : Bool :=
  canAppend fragments initSegmentEnd call io m files &&
  m.fragmentsWritten == fragments.length

/-- The arguments of the fwrite calls in their order. -/
def chunks (append : Bool) : List Text :=
  (if append then []
    else [m3u8Header (m3u8TargetDuration fragments) call.videoUrl initSegmentEnd
      call.isComplete]) ++
  (fragments.drop (if append then m.fragmentsWritten else 0)).map (m3u8Fragment call.videoUrl) ++
  (if call.isComplete then [endlist] else [])

/-- What a sequence of fwrite calls puts into the stream. -/
def fwriteAll : List Text → List ℕ → Text
  | [], _ => []
  | text :: texts, lost =>
    text.take (text.length - lost.headD 0) ++ fwriteAll texts lost.tail

/-- What is in the file when fclose succeeds. -/
def closedText (append : Bool) : Text :=
  (if append then (files (cStr call.path)).getD [] else []) ++
  fwriteAll (chunks fragments initSegmentEnd call m append) io.lost

def remember (text : Text) : Manifest where
  fragmentsWritten := fragments.length
  targetDuration := m3u8TargetDuration fragments
  initSegmentEnd := initSegmentEnd
  bytesWritten := text.length
  path := call.path
  videoUrl := call.videoUrl

def writeM3U8 : Manifest × Files :=
  if fragments = [] then (m, files)
  else if upToDate fragments initSegmentEnd call io m files then (m, files)
  else if !io.opened then ({ m with fragmentsWritten := 0 }, files)
  else
    let append := canAppend fragments initSegmentEnd call io m files
    let text :=
      if io.closed then closedText fragments initSegmentEnd call io m files append else io.left
    let files := Function.update files (cStr call.path) (some text)
    if io.closed && !call.isComplete && io.measured then
      (remember fragments initSegmentEnd call text, files)
    else ({ m with fragmentsWritten := 0 }, files)

end

end ZoneMinder.VideoStore
