import FlatVolume.Gap
import FlatVolume.LogLine

/-!
# Programs and hosts

A volume never touches a file or a cache itself. Each of its operations is a
program: a tree whose nodes are requests and whose branches are the replies to
them. A host answers requests from a state of its own, and running a program
on a host threads that state through.

So one definition of an operation serves for every behaviour of the files and
caches underneath, and several programs may be run in turns, request by
request.
-/

namespace FlatVolume

/-- What a volume asks of the file system it is opened on, of its files, of its
cache and of the log. -/
inductive Request (Handle Cache : Type) where
  | openFile (path : List String) (length : Nat)
  | readHandle (handle : Handle) (window : Bytes) (offset : Nat)
  | writeHandle (handle : Handle) (data : Bytes) (offset : Nat)
  | closeHandle (handle : Handle)
  | readCache (cache : Cache) (buffer : Bytes) (offset : Nat)
  | writeCache (cache : Cache) (data : Bytes) (offset : Nat)
  | markCommitted (cache : Cache) (piece : Nat)
  | closeCache (cache : Cache)
  | log (line : LogLine)

/-- A file's reply to a read: what it left at the front of the window, and how
many bytes of that it counts as read. The count is its word only. -/
structure FileReading where
  bytes : Bytes
  outcome : Except IoError Nat

/-- A reading of as many bytes as were found. -/
def FileReading.found (bytes : Bytes) : FileReading :=
  ⟨bytes, .ok bytes.length⟩

/-- A reading that found nothing because it failed. -/
def FileReading.failed (e : IoError) : FileReading :=
  ⟨[], .error e⟩

def FileReading.ofBytes : Except IoError Bytes → FileReading
  | .ok bytes => found bytes
  | .error e => failed e

/-- A cache's reply to a read: what it left at the front of the buffer, and the
parts it could not serve. -/
structure CacheReading where
  bytes : Bytes
  gaps : Except Fault (List Gap)

/-- What a request is answered with. -/
def Reply {Handle Cache : Type} : Request Handle Cache → Type
  | .openFile _ _ => Except (Failure IoError) Handle
  | .readHandle _ _ _ => FileReading
  | .writeHandle _ _ _ => Except (Failure IoError) Nat
  | .closeHandle _ => Except IoError Unit
  | .readCache _ _ _ => CacheReading
  | .writeCache _ _ _ => List WriteBack
  | .markCommitted _ _ => Unit
  | .closeCache _ => Except IoError Unit
  | .log _ => Unit

inductive Program (Handle Cache α : Type) : Type where
  | done (result : α)
  | ask (request : Request Handle Cache) (next : Reply request → Program Handle Cache α)

/-- Answers every request, from a state of its own. -/
structure Host (Handle Cache σ : Type) where
  answer : (request : Request Handle Cache) → σ → Reply request × σ

namespace Program

variable {Handle Cache σ α β γ : Type}

def bind : Program Handle Cache α → (α → Program Handle Cache β) → Program Handle Cache β
  | done result, f => f result
  | ask request next, f => ask request fun reply => (next reply).bind f

instance : Monad (Program Handle Cache) where
  pure := done
  bind := bind

def request (r : Request Handle Cache) : Program Handle Cache (Reply r) :=
  ask r done

def log (line : LogLine) : Program Handle Cache Unit :=
  request (.log line)

/-- Answers the requests of a program one after the other. -/
def run (host : Host Handle Cache σ) : Program Handle Cache α → σ → α × σ
  | done result, state => (result, state)
  | ask r next, state =>
    let (reply, state) := host.answer r state
    (next reply).run host state

@[simp] theorem pure_eq (a : α) : (pure a : Program Handle Cache α) = done a := rfl

@[simp] theorem bind_eq (p : Program Handle Cache α) (f : α → Program Handle Cache β) :
    p >>= f = p.bind f := rfl

@[simp] theorem done_bind (a : α) (f : α → Program Handle Cache β) : (done a).bind f = f a := rfl

@[simp] theorem ask_bind (r : Request Handle Cache) (next : Reply r → Program Handle Cache α)
    (f : α → Program Handle Cache β) :
    (ask r next).bind f = ask r fun reply => (next reply).bind f := rfl

@[simp] theorem bind_done (p : Program Handle Cache α) : p.bind done = p := by
  induction p with
  | done a => rfl
  | ask r next ih => simp [ih]

theorem bind_assoc (p : Program Handle Cache α) (f : α → Program Handle Cache β)
    (g : β → Program Handle Cache γ) : (p.bind f).bind g = p.bind fun a => (f a).bind g := by
  induction p with
  | done a => rfl
  | ask r next ih => simp [ih]

@[simp] theorem run_done (host : Host Handle Cache σ) (a : α) (state : σ) :
    (done a).run host state = (a, state) := rfl

@[simp] theorem run_ask (host : Host Handle Cache σ) (r : Request Handle Cache)
    (next : Reply r → Program Handle Cache α) (state : σ) :
    (ask r next).run host state =
      (next (host.answer r state).1).run host (host.answer r state).2 := rfl

/-- A sequence runs its first part and continues from the state that leaves. -/
theorem run_bind (host : Host Handle Cache σ) (p : Program Handle Cache α)
    (f : α → Program Handle Cache β) (state : σ) :
    (p.bind f).run host state = (f (p.run host state).1).run host (p.run host state).2 := by
  induction p generalizing state with
  | done a => rfl
  | ask r next ih => simp [ih]

end Program

end FlatVolume
