import ArtifactCache.Store.Basic

/-! # The life of an open cache

What happens to an open cache and its disk: files are written to their places, they
are registered, looked up and forgotten, and queued removals are carried out.  A
queued removal may be carried out at any later moment, and in any order.
-/

namespace ArtifactCache.Store

/-- Something that happens to an open cache or to its disk. -/
inductive Event where
  /-- The file of an entry is written to its place. -/
  | written (key : Key) (file : StoredFile) (accessed : Instant)
  /-- A file is registered. -/
  | inserted (key : Key) (file : StoredFile)
  | fetched (key : Key)
  | forgotten (key : Key)
  /-- One of the queued removals is carried out. -/
  | swept (path : DiskPath)
  deriving DecidableEq, Repr

inductive Step : Event → Store × Disk → Store × Disk → Prop
  | written {store disk key file accessed changed}
      (done : disk.write (store.pathFor key file) file.diskSize accessed = .ok changed) :
    Step (.written key file accessed) (store, disk) (store, changed)
  | inserted {store disk} (key : Key) (file : StoredFile) :
    Step (.inserted key file) (store, disk) ((store.insert key file).2, disk)
  | fetched {store disk} (key : Key) : Step (.fetched key) (store, disk) ((store.get key).2, disk)
  | forgotten {store disk} (key : Key) :
    Step (.forgotten key) (store, disk) ((store.forget key).2, disk)
  | swept {store disk path} (queued : path ∈ store.sweeper.queue) :
    Step (.swept path) (store, disk)
      ({ store with sweeper := store.sweeper.complete path }, (Sweeper.attempt disk path).1)

inductive Steps : List Event → Store × Disk → Store × Disk → Prop
  | none {state} : Steps [] state state
  | next {event events first middle last} (step : Step event first middle)
      (rest : Steps events middle last) : Steps (event :: events) first last

end ArtifactCache.Store
