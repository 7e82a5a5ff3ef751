import Revenant.CoreValues

/-!
# The files of a session directory

Two append-only files and a checkpoint.  A write reaches the operating system
when its stream is flushed; what has not been flushed survives a crash as some
prefix of it.  The checkpoint is replaced by a rename, whole or not at all.
-/

namespace Revenant

/-- A file open for appending: what has been flushed and what is still buffered. -/
structure Stream where
  flushed : Bytes
  pending : Bytes
deriving DecidableEq

namespace Stream

def contents (stream : Stream) : Bytes := stream.flushed ++ stream.pending

def append (stream : Stream) (bytes : Bytes) : Stream :=
  { stream with pending := stream.pending ++ bytes }

def flush (stream : Stream) : Stream := ⟨stream.contents, []⟩

/-- Cuts the file down to `size` bytes. -/
def resize (stream : Stream) (size : Nat) : Stream := ⟨stream.contents.take size, []⟩

/-- What a crash may leave of a stream: the flushed bytes and a prefix of the
buffered ones. -/
def Tears (stream torn : Stream) : Prop :=
  ∃ kept, kept <+: stream.pending ∧ torn = ⟨stream.flushed ++ kept, []⟩

@[simp]
theorem contents_append (stream : Stream) (bytes : Bytes) :
    (stream.append bytes).contents = stream.contents ++ bytes := by
  simp [append, contents]

@[simp]
theorem contents_flush (stream : Stream) : stream.flush.contents = stream.contents := by
  simp [flush, contents]

@[simp]
theorem contents_resize (stream : Stream) (size : Nat) :
    (stream.resize size).contents = stream.contents.take size := by
  simp [resize, contents]

@[simp]
theorem flushed_append (stream : Stream) (bytes : Bytes) :
    (stream.append bytes).flushed = stream.flushed := rfl

@[simp]
theorem flushed_flush (stream : Stream) : stream.flush.flushed = stream.contents := rfl

@[simp]
theorem flushed_resize (stream : Stream) (size : Nat) :
    (stream.resize size).flushed = stream.contents.take size := rfl

/-- A crash loses nothing that was flushed and adds nothing. -/
theorem Tears.bounds {stream torn : Stream} (tears : stream.Tears torn) :
    stream.flushed <+: torn.contents ∧ torn.contents <+: stream.contents ∧ torn.pending = [] := by
  obtain ⟨kept, leading, rfl⟩ := tears
  refine ⟨?_, ?_, rfl⟩
  · simp [contents]
  · simpa [contents] using (List.prefix_append_right_inj stream.flushed).mpr leading

end Stream

/-- The append-only files of a session. -/
inductive SessionFile where
  | kIndex
  | kBlob
deriving DecidableEq

/-- One thing a process does to its session directory. -/
inductive Effect where
  | append (file : SessionFile) (bytes : Bytes)
  | flush (file : SessionFile)
  | resize (file : SessionFile) (size : Nat)
  | replaceCheckpoint (bytes : Bytes)
  | removeCheckpoint
deriving DecidableEq

/-- A session directory.  A file that does not exist has no bytes. -/
structure SessionDisk where
  index : Stream
  blob : Stream
  checkpoint : Option Bytes
deriving DecidableEq

namespace SessionDisk

def update (disk : SessionDisk) (file : SessionFile) (change : Stream → Stream) : SessionDisk :=
  match file with
  | .kIndex => { disk with index := change disk.index }
  | .kBlob => { disk with blob := change disk.blob }

def perform (effect : Effect) (disk : SessionDisk) : SessionDisk :=
  match effect with
  | .append file bytes => disk.update file (·.append bytes)
  | .flush file => disk.update file Stream.flush
  | .resize file size => disk.update file (·.resize size)
  | .replaceCheckpoint bytes => { disk with checkpoint := some bytes }
  | .removeCheckpoint => { disk with checkpoint := none }

def performAll (effects : List Effect) (disk : SessionDisk) : SessionDisk :=
  effects.foldl (fun disk effect => disk.perform effect) disk

/-- What a crash may leave of the directory. -/
def Tears (disk torn : SessionDisk) : Prop :=
  disk.index.Tears torn.index ∧ disk.blob.Tears torn.blob ∧ torn.checkpoint = disk.checkpoint

/-- Closing a directory whose writes are all flushed changes nothing. -/
theorem tears_self {disk : SessionDisk} (index : disk.index.pending = [])
    (blob : disk.blob.pending = []) : disk.Tears disk := by
  refine ⟨⟨[], List.nil_prefix, ?_⟩, ⟨[], List.nil_prefix, ?_⟩, rfl⟩
  · rw [List.append_nil, ← index]
  · rw [List.append_nil, ← blob]

/-- No file is larger than the operating system can address. -/
def Addressable (disk : SessionDisk) : Prop :=
  disk.index.contents.length < 2 ^ 63 ∧ disk.blob.contents.length < 2 ^ 63

instance (disk : SessionDisk) : Decidable disk.Addressable :=
  inferInstanceAs (Decidable (_ ∧ _))

end SessionDisk
end Revenant
