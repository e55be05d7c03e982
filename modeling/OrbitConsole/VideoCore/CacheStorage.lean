import OrbitConsole.Common.Counter
import OrbitConsole.Library.Tally
import OrbitConsole.Library.Transition

/-!
# The writer of the pipeline cache

The threads in `DataBase::Save`, the writer thread in `ProcessIO` and the thread
in `DataBase::Close`, on a database that is open. `FinishPreload`, which makes an
archive writable, may be called at any time. What is done under `m_request` is one step; `submit_mutex` is taken and given back in
steps of their own, and `++num_requests` and `--num_requests` each load and store
in two. Every file and every archive takes what is written to it.
-/

namespace OrbitConsole.VideoCore

inductive BlobType where
  | shaderMeta
  | shaderBinary
  | pipelineKey
  | shaderProfile
  deriving DecidableEq

def getBlobFileExtension : BlobType → List Char
  | .shaderMeta => "meta".toList
  | .shaderBinary => "spv".toList
  | .pipelineKey => "key".toList
  | .shaderProfile => "bin".toList

def extensionLength (path : List Char) : ℕ :=
  let back := path.reverse.takeWhile (· ≠ '/')
  if back = ['.', '.'] then 0
  else
    match back.dropWhile (· ≠ '.') with
    | [] | ['.'] => 0
    | _ => (back.takeWhile (· ≠ '.')).length + 1

def replaceExtension (path ext : List Char) : List Char :=
  path.take (path.length - extensionLength path) ++ '.' :: ext

def joinPath (path name : List Char) : List Char :=
  if name.head? = some '/' then name else path ++ '/' :: name

/-- The settings and the member `cache_path` that saving reads. -/
structure CacheConfig where
  pipelineCacheArchived : Bool
  cachePath : List Char

/-- What the packaged task of a request has captured. -/
structure Request where
  type : BlobType
  path : List Char
  v : List UInt8
  deriving DecidableEq

inductive BlobWrite where
  | file (path : List Char) (v : List UInt8)
  | archiveMem (name : List Char) (v : List UInt8)
  deriving DecidableEq

/-- The request of a call of `Save`. -/
def CacheConfig.request (cfg : CacheConfig) (type : BlobType) (name : List Char)
    (data : List UInt8) : Request :=
  { type := type
    path := if cfg.pipelineCacheArchived then name else joinPath cfg.cachePath name
    v := data }

def CacheConfig.execute (cfg : CacheConfig) (r : Request) : BlobWrite :=
  let path := replaceExtension r.path (getBlobFileExtension r.type)
  if cfg.pipelineCacheArchived then .archiveMem path r.v else .file path r.v

/-- Where a thread stands in `Save`; a ticket is the place of a request among all that were
ever queued. -/
inductive SaverPc where
  | idle
  /-- about to put its request into `req_queue` -/
  | queueing (r : Request)
  /-- about to take `submit_mutex` -/
  | locking (ticket : ℕ)
  /-- about to load `num_requests` -/
  | loading (ticket : ℕ)
  | storing (ticket v : ℕ)
  /-- about to notify, to give the mutex back and to return -/
  | notifying (ticket : ℕ)
  deriving DecidableEq

/-- Where the writer stands in `ProcessIO`. -/
inductive WriterPc where
  /-- at the head of the outer loop -/
  | loop
  /-- about to take `submit_mutex`, in `CondvarWait` -/
  | locking
  /-- at the test of `CondvarWait`, with the mutex -/
  | testing
  | blocked (woken : Bool)
  /-- at the second test of the stop token -/
  | checking
  /-- at the head of the inner loop -/
  | draining
  /-- about to take a request -/
  | popping
  | running (r : Request)
  | loading
  | storing (v : ℕ)
  | exited
  /-- stopped by the assertion that the archive is not read-only -/
  | failed
  deriving DecidableEq

/-- Where the thread that calls `Close` stands. -/
inductive CloserPc where
  | outside
  | called
  | joining
  | returned
  deriving DecidableEq

inductive MutexOwner (ι : Type) where
  | writer
  | saver (i : ι)
  deriving DecidableEq

/-- The globals of the cache storage and its threads. `queued`, `returned` and `promised` are
the history: the requests ever queued, the tickets of the calls of `Save` that have
returned, and those that had when `Close` was called. -/
structure CacheDatabase (ι : Type) where
  numRequests : ℕ := 0
  reqQueue : List Request := []
  arIsReadOnly : Bool := true
  submitMutex : Option (MutexOwner ι) := none
  stopRequested : Bool := false
  writer : WriterPc := .loop
  savers : ι → SaverPc := fun _ => .idle
  closer : CloserPc := .outside
  written : List BlobWrite := []
  queued : List Request := []
  returned : List ℕ := []
  promised : List ℕ := []

inductive CacheAction (ι : Type) where
  | save (i : ι) (type : BlobType) (name : List Char) (data : List UInt8)
  /-- the next step of a thread in `Save` -/
  | saver (i : ι)
  /-- the next step of the writer -/
  | writer
  | spuriousWakeup
  | finishPreload
  | close
  | requestStop
  | join

def WriterPc.wake : WriterPc → WriterPc
  | .blocked _ => .blocked true
  | pc => pc

namespace CacheDatabase

variable {ι : Type} [DecidableEq ι]

def setSaver (s : CacheDatabase ι) (i : ι) (pc : SaverPc) : CacheDatabase ι :=
  { s with savers := Function.update s.savers i pc }

def stepSaver (s : CacheDatabase ι) (i : ι) : Option (CacheDatabase ι) :=
  match s.savers i with
  | .idle => none
  | .queueing r =>
      some { s.setSaver i (.locking s.queued.length) with
        reqQueue := s.reqQueue ++ [r], queued := s.queued ++ [r] }
  | .locking t =>
      if s.submitMutex = none then
        some { s.setSaver i (.loading t) with submitMutex := some (.saver i) }
      else none
  | .loading t => some (s.setSaver i (.storing t s.numRequests))
  | .storing t v => some { s.setSaver i (.notifying t) with numRequests := incU32 v }
  | .notifying t =>
      some { s.setSaver i .idle with
        submitMutex := none, writer := s.writer.wake, returned := t :: s.returned }

/-- A step of `ProcessIO`. -/
def stepWriter (cfg : CacheConfig) (s : CacheDatabase ι) : Option (CacheDatabase ι) :=
  match s.writer with
  | .loop => some { s with writer := if s.stopRequested then .exited else .locking }
  | .locking =>
      if s.submitMutex = none then
        some { s with writer := .testing, submitMutex := some .writer }
      else none
  | .testing =>
      some { s with
        submitMutex := none
        writer := if s.stopRequested ∨ s.numRequests ≠ 0 then .checking else .blocked false }
  | .blocked woken => if woken then some { s with writer := .locking } else none
  | .checking => some { s with writer := if s.stopRequested then .exited else .draining }
  | .draining => some { s with writer := if s.numRequests ≠ 0 then .popping else .loop }
  | .popping =>
      match s.reqQueue with
      | [] => some { s with writer := .draining }
      | r :: rest => some { s with writer := .running r, reqQueue := rest }
  | .running r =>
      if cfg.pipelineCacheArchived ∧ s.arIsReadOnly then some { s with writer := .failed }
      else some { s with writer := .loading, written := s.written ++ [cfg.execute r] }
  | .loading => some { s with writer := .storing s.numRequests }
  | .storing v => some { s with writer := .draining, numRequests := decU32 v }
  | .exited | .failed => none

def step (cfg : CacheConfig) (s : CacheDatabase ι) : CacheAction ι → Option (CacheDatabase ι)
  | .save i type name data =>
      if s.savers i = .idle then some (s.setSaver i (.queueing (cfg.request type name data)))
      else none
  | .saver i => s.stepSaver i
  | .writer => s.stepWriter cfg
  | .spuriousWakeup => some { s with writer := s.writer.wake }
  | .finishPreload =>
      some { s with arIsReadOnly := s.arIsReadOnly && !cfg.pipelineCacheArchived }
  | .close =>
      if s.closer = .outside then some { s with closer := .called, promised := s.returned }
      else none
  | .requestStop =>
      if s.closer = .called then
        some { s with closer := .joining, stopRequested := true, writer := s.writer.wake }
      else none
  | .join =>
      if s.closer = .joining ∧ s.writer = .exited then some { s with closer := .returned }
      else none

def opened : CacheDatabase ι := {}

end CacheDatabase

end OrbitConsole.VideoCore
