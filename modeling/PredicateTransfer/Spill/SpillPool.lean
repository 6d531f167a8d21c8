import PredicateTransfer.Lib.Queue
import PredicateTransfer.Lib.Runs

/-!
# The spill pool

Writers append batches to files, one file after the other, while one reader follows. The writers
share the file that is written to: who pushes a batch takes it out of the shared state, writes, and
puts it back unless the file has grown past its limit. The shared state and each file have a lock
of their own, and nobody holds two. So a step below is what is done under one lock.

A batch is read from its file without a lock, by a blocking task that the reader starts and then
waits for. A file only grows, so it does not matter when the task reads. The stream of a file is
cooperative: it may give way instead of being polled, and has the reader polled again. Errors of the
disk are left out.
-/

namespace PredicateTransfer.SpillPool

open AsyncQueue Runs

/-! ## State -/

/-- What the pool reads off a batch, and the limit of its files. -/
structure Config (β : Type) where
  numRows : β → Nat
  memorySize : β → Nat
  maxFileSizeBytes : Nat

/-- `ActiveSpillFileShared`. The handles of the file are there or not. -/
structure ActiveSpillFile (β : Type) where
  writer : Bool
  file : Bool
  /-- What was written; `batches_written` is its length. -/
  batches : List β
  estimatedSize : Nat
  writerFinished : Bool
  waker : Bool
  deriving DecidableEq, Repr

namespace ActiveSpillFile

variable {β : Type}

def new : ActiveSpillFile β := ⟨true, true, [], 0, false, false⟩

/-- What `push_batch` does under the lock of the file: the batch is written, and a file that has
grown past the limit is finished. A file without a writer would lose the batch. -/
def append (cfg : Config β) (x : ActiveSpillFile β) (batch : β) : ActiveSpillFile β :=
  let written :=
    if x.writer then
      { x with
        batches := x.batches ++ [batch]
        estimatedSize := x.estimatedSize + cfg.memorySize batch
        waker := false }
    else { x with waker := false }
  if written.estimatedSize > cfg.maxFileSizeBytes then
    { written with writer := false, writerFinished := true }
  else written

/-- What the last `drop` does under the lock of the file. -/
def finish (x : ActiveSpillFile β) : ActiveSpillFile β :=
  { x with writer := false, writerFinished := true, waker := false }

end ActiveSpillFile

/-- A `SpillPoolWriter`, by what it does next. -/
inductive Writer (β : Type) where
  | absent
  | idle
  /-- `push_batch` found no file and creates one. -/
  | creating (batch : β)
  /-- It has taken the file. -/
  | appending (batch : β) (file : Nat)
  /-- It puts the file back. -/
  | returning (file : Nat)
  /-- `drop` of the last writer has taken the file. -/
  | finishing (file : Nat)
  /-- It sets `writer_dropped`. -/
  | closing
  deriving DecidableEq, Repr

/-- The writer has not been dropped. -/
def Writer.active {β : Type} : Writer β → Bool
  | .idle | .creating _ | .appending _ _ | .returning _ => true
  | .absent | .finishing _ | .closing => false

/-- `SpillPoolReader::poll_next`, by what it does next. -/
inductive Reading (β : Type) where
  /-- It has not been polled, or has returned. -/
  | returned (last : Option (Poll (Option β)))
  | loop
  /-- The file has ended. -/
  | exhausted
  | pop
  /-- There is a batch in the file, and its stream is polled. -/
  | stream
  /-- The file has nothing to read yet, or is being read. -/
  | register
  deriving DecidableEq, Repr

/-- The task that reads the next batch, and whether it will wake the reader. -/
inductive ReadTask where
  | running (waker : Bool)
  | finished
  deriving DecidableEq, Repr

/-- The file that is read, with the number of batches once its stream is open, and the task of
`SpillReaderStreamState::ReadInProgress`. -/
structure SpillFile where
  shared : Nat
  batchesRead : Option Nat
  task : Option ReadTask
  deriving DecidableEq, Repr

structure State (ι β : Type) where
  /-- The files that were created, by number. -/
  heap : Nat → ActiveSpillFile β
  created : Nat
  -- `SpillPoolShared`
  files : List Nat
  waker : Bool
  writerDropped : Bool
  currentWriteFile : Option Nat
  activeWriterCount : Nat
  writers : ι → Writer β
  -- `SpillPoolReader`
  currentFile : Option SpillFile
  reading : Reading β
  /-- The reader has been woken since it was polled last. -/
  woken : Bool
  -- History: how many files were popped, what was written and what was read.
  popped : Nat
  accepted : List β
  delivered : List β

variable {ι β : Type} [DecidableEq ι]

/-- `channel`, with the writer `i`. -/
def channel (β : Type) (i : ι) : State ι β where
  heap := fun _ => .new
  created := 0
  files := []
  waker := false
  writerDropped := false
  currentWriteFile := none
  activeWriterCount := 1
  writers := Function.update (fun _ => .absent) i .idle
  currentFile := none
  reading := .returned none
  woken := false
  popped := 0
  accepted := []
  delivered := []

namespace State

def setWriter (s : State ι β) (i : ι) (w : Writer β) : State ι β :=
  { s with writers := Function.update s.writers i w }

def setFile (s : State ι β) (f : Nat) (x : ActiveSpillFile β) : State ι β :=
  { s with heap := Function.update s.heap f x }

/-- `SpillPoolShared::wake`. -/
def wake (s : State ι β) : State ι β := { s with waker := false, woken := s.woken || s.waker }

/-- Writer `i` has changed a file under its lock, and has woken the reader. -/
def write (s : State ι β) (i : ι) (w : Writer β) (f : Nat) (x : ActiveSpillFile β)
    (written : List β) : State ι β :=
  { s with
    heap := Function.update s.heap f x
    woken := s.woken || (s.heap f).waker
    writers := Function.update s.writers i w
    accepted := s.accepted ++ written }

/-! ## Writers -/

/-- The first lock of `push_batch`. -/
def pushBatch (cfg : Config β) (s : State ι β) (i : ι) (batch : β) : State ι β :=
  if cfg.numRows batch = 0 then s
  else
    match s.currentWriteFile with
    | none => s.setWriter i (.creating batch)
    | some f => { s.setWriter i (.appending batch f) with currentWriteFile := none }

/-- The file is appended to the queue, becomes the current one, and is taken at once. -/
def addFile (s : State ι β) (i : ι) (batch : β) : State ι β :=
  { (s.setFile s.created .new).wake.setWriter i (.appending batch s.created) with
    created := s.created + 1
    files := s.files ++ [s.created]
    currentWriteFile := none }

/-- The lock of the file. It is put back later, unless it is finished. -/
def append (cfg : Config β) (s : State ι β) (i : ι) (batch : β) (f : Nat) : State ι β :=
  let x := (s.heap f).append cfg batch
  s.write i (if x.estimatedSize > cfg.maxFileSizeBytes then .idle else .returning f) f x
    (if (s.heap f).writer then [batch] else [])

/-- `drop`, up to the file if this is the last writer and there is one. -/
def dropWriter (s : State ι β) (i : ι) : State ι β :=
  let count := s.activeWriterCount - 1
  if count ≠ 0 then { s.setWriter i .absent with activeWriterCount := count }
  else
    match s.currentWriteFile with
    | some f =>
      { s.setWriter i (.finishing f) with activeWriterCount := count, currentWriteFile := none }
    | none =>
      { s.wake.setWriter i .absent with activeWriterCount := count, writerDropped := true }

def resume (cfg : Config β) (s : State ι β) (i : ι) : Writer β → Option (State ι β)
  | .absent => none
  | .idle => none
  | .creating batch => some (s.addFile i batch)
  | .appending batch f => some (s.append cfg i batch f)
  | .returning f => some { s.setWriter i .idle with currentWriteFile := some f }
  | .finishing f => some (s.write i .closing f (s.heap f).finish [])
  | .closing => some { s.wake.setWriter i .absent with writerDropped := true }

/-! ## The reader -/

/-- `SpillFile::poll_next` of the current file, up to its stream. -/
def pollFile (s : State ι β) (x : SpillFile) : State ι β :=
  let file := s.heap x.shared
  let batchesRead := x.batchesRead.getD 0
  if batchesRead < file.batches.length then
    if x.batchesRead.isNone && !file.file then
      { s.setFile x.shared { file with waker := true } with reading := .register }
    else
      { s.setFile x.shared { file with file := file.file && x.batchesRead.isSome } with
        currentFile := some { x with batchesRead := some batchesRead }
        reading := .stream }
  else if file.writerFinished then { s with reading := .exhausted }
  else { s.setFile x.shared { file with waker := true } with reading := .register }

/-- `SpillReaderStream::poll_next` of its stream, and the match in the loop of the pool. -/
def pollStream (s : State ι β) (x : SpillFile) : State ι β :=
  let batchesRead := x.batchesRead.getD 0
  match x.task with
  -- `spawn_blocking`, and the stream is polled again
  | none => { s with currentFile := some { x with task := some (.running false) } }
  | some (.running _) =>
    { s with currentFile := some { x with task := some (.running true) }, reading := .register }
  | some .finished =>
    match (s.heap x.shared).batches[batchesRead]? with
    | some batch =>
      { s with
        currentFile := some ⟨x.shared, some (batchesRead + 1), none⟩
        reading := .returned (some (.ready (some batch)))
        delivered := s.delivered ++ [batch] }
    | none => { s with currentFile := some { x with task := none }, reading := .exhausted }

/-- The loop of `SpillPoolReader::poll_next` goes on. -/
def read (s : State ι β) : Option (State ι β) :=
  match s.reading with
  | .returned _ => none
  | .loop =>
    match s.currentFile with
    | some x => some (s.pollFile x)
    | none =>
      match s.files with
      | f :: _ => some { s with currentFile := some ⟨f, none, none⟩ }
      | [] =>
        if s.writerDropped then some { s with reading := .returned (some (.ready none)) }
        else some { s with waker := true, reading := .returned (some .pending) }
  | .exhausted =>
    s.currentFile.map fun x =>
      if (s.heap x.shared).writerFinished then { s with reading := .pop }
      else { s with reading := .returned (some (.ready none)) }
  | .stream => s.currentFile.map s.pollStream
  | .pop =>
    some { s with
      files := s.files.tail
      currentFile := none
      reading := .loop
      popped := s.popped + 1 }
  | .register => some { s with waker := true, reading := .returned (some .pending) }

/-- The task that reads ends, and wakes who waits for it. -/
def finishRead (s : State ι β) : Option (State ι β) :=
  s.currentFile.bind fun x =>
    match x.task with
    | some (.running waker) =>
      some { s with
        currentFile := some { x with task := some .finished }
        woken := s.woken || waker }
    | _ => none

/-- The stream gives way: it wakes the reader, and is not polled. -/
def giveWay (s : State ι β) : Option (State ι β) :=
  match s.reading with
  | .stream => some { s with woken := true, reading := .register }
  | _ => none

end State

/-! ## Steps -/

/-- What the tasks do at the pool. -/
inductive Call (ι β : Type) where
  | clone (i k : ι)
  | pushBatch (i : ι) (batch : β)
  | dropWriter (i : ι)
  | resume (i : ι)
  | poll
  | read
  | giveWay
  /-- The task that reads ends. -/
  | finishRead
  deriving DecidableEq, Repr

def step (cfg : Config β) (s : State ι β) : Call ι β → Option (State ι β)
  | .clone i k =>
    if (s.writers i).active then
      match s.writers k with
      | .absent => some { s.setWriter k .idle with activeWriterCount := s.activeWriterCount + 1 }
      | _ => none
    else none
  | .pushBatch i batch =>
    match s.writers i with
    | .idle => some (s.pushBatch cfg i batch)
    | _ => none
  | .dropWriter i =>
    match s.writers i with
    | .idle => some (s.dropWriter i)
    | _ => none
  | .resume i => s.resume cfg i (s.writers i)
  | .poll =>
    match s.reading with
    | .returned _ => some { s with reading := .loop, woken := false }
    | _ => none
  | .read => s.read
  | .giveWay => s.giveWay
  | .finishRead => s.finishRead

/-- The writer is in `push_batch`. -/
def Writer.pushing : Writer β → Bool
  | .creating _ | .appending _ _ | .returning _ => true
  | _ => false

/-- A push begins only when no other is under way: a lock around `push_batch`. -/
def Serial (s : State ι β) : Call ι β → Prop
  | .pushBatch _ _ => ∀ k, (s.writers k).pushing = false
  | _ => True

instance [Fintype ι] (s : State ι β) (a : Call ι β) : Decidable (Serial s a) :=
  match a with
  | .pushBatch _ _ => inferInstanceAs (Decidable (∀ k, (s.writers k).pushing = false))
  | .clone _ _ | .dropWriter _ | .resume _ | .poll | .read | .giveWay | .finishRead =>
    inferInstanceAs (Decidable True)

/-- What the task of the reader does itself, while it polls. -/
def Call.isOwn : Call ι β → Bool
  | .read | .giveWay => true
  | .clone _ _ | .pushBatch _ _ | .dropWriter _ | .resume _ | .poll | .finishRead => false

end PredicateTransfer.SpillPool
