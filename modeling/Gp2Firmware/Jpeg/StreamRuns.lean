import Gp2Firmware.Jpeg.Allocation
import Gp2Firmware.Jpeg.Progressive
import Gp2Firmware.Jpeg.StreamEnd

/-!
# Runs through a stream

What the decoder does while it reads the headers and the scans of an image, and how many
characters it takes.  The blocks have to be in order wherever it gets to, for an error may be
found there.
-/

namespace Gp2Firmware.Jpeg.Decoder

open Gp2Firmware.Lib (Effects)
open Gp2Firmware.Lib.WordMemory Gp2Firmware.Jpeg.BitReader

section Pool

variable {machine : Machine}

def onlyPool : Effects State Note where
  does s _ t := OnlyPool s t
  refl := .refl
  trans := .trans

theorem onlyPool_freeBlocks {blocks : List Address} :
    onlyPool.Keeps (freeBlocks machine blocks) := by
  induction blocks with
  | nil => exact Effects.keeps_pure
  | cons q rest inductionHypothesis =>
      rw [freeBlocks]
      split
      · exact inductionHypothesis
      · have free : onlyPool.Keeps (freeBlock machine q) := by
          intro s a t ran
          obtain ⟨memory, -, freed⟩ := Option.map_eq_some_iff.mp ran
          obtain ⟨-, rfl⟩ := Prod.mk.inj freed
          exact ⟨[], rfl, trivial⟩
        exact free.bind fun _ => inductionHypothesis

theorem onlyPool_freeAllBlocks : onlyPool.Keeps (freeAllBlocks machine) := by
  apply Effects.silent_get.keeps.bind
  intro s
  exact onlyPool_freeBlocks.bind fun _ => (Effects.silent_modify fun _ => rfl).keeps

theorem onlyPool_terminate {status : JpegError} : onlyPool.Keeps (terminate machine status) := by
  have noted : onlyPool.Keeps (note (.terminate status)) :=
    (Effects.silent_modify fun _ => rfl).keeps
  exact noted.bind fun _ => onlyPool_freeAllBlocks

theorem onlyPool_of_terminate {s t : State} {status : JpegError}
    (handled : terminate machine status s = some ((), t)) : OnlyPool s t := by
  obtain ⟨notes, only, -⟩ := onlyPool_terminate s () t handled
  exact only

end Pool

section Reads

/-- The stream and the blocks are the same. -/
structure SameStream (s t : State) : Prop where
  reader : t.reader = s.reader
  blocks : t.books.blocks = s.books.blocks
  decodeType : t.decodeType = s.decodeType
  thumbnail : t.thumbnail = s.thumbnail
  dcCoeffs : t.dcCoeffs = s.dcCoeffs
  acCoeffs : t.acCoeffs = s.acCoeffs

/-- An APP1 segment is read, and not skipped. -/
def ReadsApp1 (s : State) : Prop :=
  s.decodeType = .thumbnail ∧ s.thumbnail.thumbnailFound = false

instance (s : State) : Decidable (ReadsApp1 s) :=
  inferInstanceAs (Decidable (_ ∧ _))

/-- A coefficient of a block, of which there is one in a block of a DC buffer. -/
def IsCoef (machine : Machine) (s : State) (p : Address) (k : Nat) : Prop :=
  p ≠ 0 ∧ ∃ c blockX blockY,
    k = 0 ∧ coeffBufGetp machine (s.dcCoeffs c) blockX blockY s = some (p, s) ∨
      k < 64 ∧ coeffBufGetp machine (s.acCoeffs c) blockX blockY s = some (p, s)

/-- From a state the decoder gets to another one while it reads the stream, and takes a number
of characters on the way. -/
inductive Reads (machine : Machine) (s : State) : Nat → State → Prop
  | start : Reads machine s 0 s
  | takes {n more t r} : Reads machine s n t → Takes machine.wait t.reader more r →
      Reads machine s (n + more) { t with reader := r }
  | changes {n t u} : Reads machine s n t → SameStream t u → Reads machine s n u
  | exifByte {n t i c} : Reads machine s n t → ReadsApp1 t → i < 65533 →
      Reads machine s n { t with reader := { t.reader with
        memory := Function.update t.reader.memory
          (t.reader.internalBufferAddr + BitVec.ofNat 32 i) c } }
  | exif {n t length} : Reads machine s n t → ReadsApp1 t →
      Reads machine s n (decodeExif length t)
  | coef {n earlier t u p k value} : Reads machine s earlier u → IsCoef machine u p k →
      Reads machine s n t → Reads machine s n { t with reader := { t.reader with
        memory := storeShort t.reader.memory (coefPlace p k) value } }
  | handled {n t u status} : Reads machine s n t → terminate machine status t = some ((), u) →
      Reads machine s n u

/-- All blocks can be freed wherever the decoder gets to. -/
def Intact (machine : Machine) (s : State) : Prop :=
  ∀ n t, Reads machine s n t → ∃ u, freeAllBlocks machine t = some ((), u)

/-- The stream is one that ends, and no segment of a thumbnail is taken for another one. -/
structure Ready (s : State) : Prop where
  supplied : Supplied s.reader
  found : s.reader.thumbnailAccessMode = true → s.thumbnail.thumbnailFound = true

variable {machine : Machine} {left : Reader → Nat} {n more : Nat} {s t u : State}

theorem Reads.trans (first : Reads machine s n t) (second : Reads machine t more u) :
    Reads machine s (n + more) u := by
  induction second with
  | start => exact first
  | takes _ taken inductionHypothesis =>
      rw [← Nat.add_assoc]
      exact inductionHypothesis.takes taken
  | changes _ same inductionHypothesis => exact inductionHypothesis.changes same
  | exifByte _ reads inside inductionHypothesis => exact inductionHypothesis.exifByte reads inside
  | exif _ reads inductionHypothesis => exact inductionHypothesis.exif reads
  | coef _ isCoef _ earlier inductionHypothesis => exact .coef earlier isCoef inductionHypothesis
  | handled _ handled inductionHypothesis => exact inductionHypothesis.handled handled

theorem Intact.behind (intact : Intact machine s) (reads : Reads machine s n t) :
    Intact machine t :=
  fun more u later => intact (n + more) u (reads.trans later)

theorem Intact.terminate (intact : Intact machine s) (reads : Reads machine s n t)
    (status : JpegError) : ∃ u, terminate machine status t = some ((), u) ∧
      Reads machine s n u := by
  have noted : Reads machine s n
      { t with books := { t.books with log := t.books.log ++ [.terminate status] } } :=
    reads.changes ⟨rfl, rfl, rfl, rfl, rfl, rfl⟩
  obtain ⟨u, freed⟩ := intact n _ noted
  exact ⟨u, freed, reads.handled freed⟩

theorem freeBlocks_noBlocks : freeBlocks machine noBlocks s = some ((), s) := by
  have zeros : ∀ count, freeBlocks machine (List.replicate count 0) s = some ((), s) := by
    intro count
    induction count with
    | zero => rfl
    | succ count inductionHypothesis =>
        rw [List.replicate_succ, freeBlocks, if_pos rfl]
        exact inductionHypothesis
  exact zeros JPEG_MAXBLOCKS

theorem blocks_of_freeAllBlocks (freed : freeAllBlocks machine s = some ((), t)) :
    t.books.blocks = noBlocks := by
  obtain ⟨⟨done, between⟩, -, cleared⟩ := Option.bind_eq_some_iff.mp freed
  obtain ⟨-, rfl⟩ := Prod.mk.inj (Option.some.inj cleared)
  rfl

theorem Reads.noBlocks (reads : Reads machine s n t) (none : s.books.blocks = noBlocks) :
    t.books.blocks = Decoder.noBlocks := by
  induction reads with
  | start => exact none
  | takes _ _ inductionHypothesis => exact inductionHypothesis
  | changes _ same inductionHypothesis => exact same.blocks.trans inductionHypothesis
  | exifByte _ _ _ inductionHypothesis => exact inductionHypothesis
  | @exif n t length _ _ inductionHypothesis =>
      have same : (decodeExif length t).books = t.books := by
        rw [decodeExif]
        dsimp only
        split
        · rfl
        · rfl
      rw [same]
      exact inductionHypothesis
  | coef _ _ _ _ inductionHypothesis => exact inductionHypothesis
  | handled _ handled _ => exact blocks_of_freeAllBlocks handled

/-- Without a block there is nothing to free. -/
theorem intact_of_noBlocks (none : s.books.blocks = noBlocks) : Intact machine s := by
  intro n t reads
  refine ⟨{ t with books := { t.books with blocks := noBlocks } }, ?_⟩
  change (freeBlocks machine t.books.blocks t).bind _ = _
  rw [reads.noBlocks none, freeBlocks_noBlocks]
  rfl

/-- No more characters are left, and those that were taken came from the stream, unless it has
come to its end. -/
structure Spends (left : Reader → Nat) (s : State) (n : Nat) (t : State) : Prop where
  ready : Ready t
  less : remaining left t.reader ≤ remaining left s.reader
  taken : remaining left t.reader + n ≤ remaining left s.reader ∨ remaining left t.reader = 0

variable (finite : FiniteStream machine.wait left) (ready : Ready s)

include finite ready

theorem Ready.exif (reads : ReadsApp1 s) {length : Nat} :
    Ready (decodeExif length s) ∧
      remaining left (decodeExif length s).reader = remaining left s.reader := by
  have mode : s.reader.thumbnailAccessMode = false := by
    by_contra thumbnail
    have found := ready.found (by simpa using thumbnail)
    rw [reads.2] at found
    cases found
  have same : ∀ offset size, remaining left { s.reader with
      thumbnailBufferOffset := offset
      thumbnailBufferSize := size } = remaining left s.reader := by
    intro offset size
    have apart := finite.apart s.reader s.reader.memory s.reader.inBufOfs s.reader.inBufLeft
      s.reader.temFlag s.reader.bitsLeft s.reader.bitBuf offset size
    rw [remaining, remaining]
    dsimp only
    rw [apart, mode]
    rfl
  have noThumbnail : ¬ s.reader.thumbnailAccessMode = true := by simp [mode]
  rw [decodeExif]
  dsimp only
  split
  · refine ⟨⟨⟨ready.supplied.phase, ready.supplied.buffer⟩, ?_⟩, same _ _⟩
    exact fun thumbnail => absurd thumbnail noThumbnail
  · exact ⟨⟨ready.supplied, fun thumbnail => absurd thumbnail noThumbnail⟩, rfl⟩

omit ready in
theorem Spends.memory {memory : Memory} (spends : Spends left s n t)
    (reader : u.reader = { t.reader with memory := memory }) (found : u.thumbnail = t.thumbnail) :
    Spends left s n u := by
  have apart := finite.apart t.reader memory t.reader.inBufOfs t.reader.inBufLeft
    t.reader.temFlag t.reader.bitsLeft t.reader.bitBuf t.reader.thumbnailBufferOffset
    t.reader.thumbnailBufferSize
  have same : remaining left u.reader = remaining left t.reader := by
    rw [reader, remaining, remaining]
    dsimp only
    rw [apart]
  have ready := spends.ready
  refine ⟨⟨?_, ?_⟩, same.trans_le spends.less, ?_⟩
  · rw [reader]
    exact ⟨ready.supplied.phase, ready.supplied.buffer⟩
  · rw [reader, found]
    exact ready.found
  · rw [same]
    exact spends.taken

theorem Reads.spends (reads : Reads machine s n t) : Spends left s n t := by
  induction reads with
  | start => exact ⟨ready, le_rfl, .inl le_rfl⟩
  | takes _ takes inductionHypothesis =>
      have less := inductionHypothesis.less
      have spent := inductionHypothesis.taken
      obtain ⟨onward, taken⟩ := takes.spent finite inductionHypothesis.ready.supplied
      have lessThen := onward.less
      refine ⟨⟨onward.supplied, ?_⟩, lessThen.trans less, ?_⟩
      · rw [onward.mode]
        exact inductionHypothesis.ready.found
      · dsimp only
        omega
  | changes _ same inductionHypothesis =>
      exact inductionHypothesis.memory finite same.reader same.thumbnail
  | exifByte _ _ _ inductionHypothesis => exact inductionHypothesis.memory finite rfl rfl
  | @exif n t length _ app1 inductionHypothesis =>
      obtain ⟨here, same⟩ := @Ready.exif _ _ _ finite inductionHypothesis.ready app1 length
      refine ⟨here, same.trans_le inductionHypothesis.less, ?_⟩
      rw [same]
      exact inductionHypothesis.taken
  | coef _ _ _ _ inductionHypothesis => exact inductionHypothesis.memory finite rfl rfl
  | @handled n t u status _ handled inductionHypothesis =>
      have only := onlyPool_of_terminate handled
      have reader : u.reader = { t.reader with memory := u.reader.memory } :=
        congrArg State.reader only
      have thumbnail : u.thumbnail = t.thumbnail := by
        rw [OnlyPool] at only
        rw [only]
      exact inductionHypothesis.memory finite reader thumbnail

end Reads

end Gp2Firmware.Jpeg.Decoder
