import CodeZard.Tables
import Mathlib.Logic.Function.Basic

namespace CodeZard.RunLogs

open Tables

abbrev Bytes := List UInt8

def MAX_BYTES : Nat := 256 * 1024

def MAX_RUNS : Nat := 200

/-- What the four dictionaries keep under one run id. The list of chunks and the
event are objects that a reader goes on holding, so they are known by name. -/
structure Entry where
  runId : String
  chunks : Nat
  size : Nat
  ended : Bool
  woken : Nat
  deriving DecidableEq, Repr

/-- The logs in the order they were started, and the objects they are made of.
With `maxRuns` zero the code raises as soon as a log is started. -/
structure RunLog where
  maxBytes : Nat := MAX_BYTES
  maxRuns : Nat := MAX_RUNS
  entries : List Entry := []
  lists : Nat → List Bytes := fun _ => []
  fired : Nat → Bool := fun _ => false
  objects : Nat := 0

namespace RunLog

variable (l : RunLog)

def find (runId : String) : Option Entry := row Entry.runId runId l.entries

def has (runId : String) : Bool := (l.find runId).isSome

def ended (runId : String) : Bool := (l.find runId).elim true Entry.ended

def put (e : Entry) : RunLog := { l with entries := upsert Entry.runId (fun _ new => new) e l.entries }

def evictFrom (l : RunLog) : List Entry → RunLog
  | [] => l
  | e :: es =>
      if l.maxRuns ≤ (e :: es).length then
        evictFrom { l with entries := es, fired := Function.update l.fired e.woken true } es
      else l

def evict : RunLog := l.evictFrom l.entries

def start (runId : String) : RunLog :=
  let l := l.evict
  { l.put ⟨runId, l.objects, 0, false, l.objects + 1⟩ with
    lists := Function.update l.lists l.objects []
    fired := Function.update l.fired (l.objects + 1) false
    objects := l.objects + 2 }

def wake (e : Entry) : RunLog :=
  { l.put { e with woken := l.objects } with
    fired := Function.update (Function.update l.fired e.woken true) l.objects false
    objects := l.objects + 1 }

def trim (maxBytes : Nat) : Nat → List Bytes → Nat × List Bytes
  | size, c :: d :: chunks =>
      if maxBytes < size then trim maxBytes (size - c.length) (d :: chunks) else (size, c :: d :: chunks)
  | size, chunks => (size, chunks)

def append (runId : String) (chunk : Bytes) : RunLog :=
  let l := if l.has runId then l else l.start runId
  match l.find runId with
  | none => l
  | some e =>
      let (size, chunks) := trim l.maxBytes (e.size + chunk.length) (l.lists e.chunks ++ [chunk])
      { l with lists := Function.update l.lists e.chunks chunks }.wake { e with size := size }

def end_ (runId : String) : RunLog :=
  match l.find runId with
  | none => l
  | some e => l.wake { e with ended := true }

end RunLog

/-- Where a reader is suspended. At a yield it still holds the list it fetched
and the part of the slice that it has not handed on. -/
inductive Place
  | created
  | yielding (chunks : Nat) (rest : List Bytes)
  | waiting (event : Nat)
  | returned
  deriving DecidableEq, Repr

/-- One call of `follow`, with what it has yielded so far and whether a chunk
was appended while it was suspended at a yield. -/
structure Reader where
  runId : String
  cursor : Nat := 0
  place : Place := .created
  out : List Bytes := []
  overtaken : Bool := false
  deriving DecidableEq, Repr

namespace Reader

def top (r : Reader) (l : RunLog) : Reader :=
  match l.find r.runId with
  | none => { r with place := .returned }
  | some e => match (l.lists e.chunks).drop r.cursor with
    | chunk :: rest => { r with place := .yielding e.chunks rest, out := r.out ++ [chunk] }
    | [] => if e.ended then { r with place := .returned } else { r with place := .waiting e.woken }

/-- The next chunk is asked for, or the event it waits on has fired. -/
def resume (r : Reader) (l : RunLog) : Option Reader :=
  match r.place with
  | .created => some (r.top l)
  | .yielding chunks (chunk :: rest) => some { r with place := .yielding chunks rest, out := r.out ++ [chunk] }
  | .yielding chunks [] => some ({ r with cursor := (l.lists chunks).length }.top l)
  | .waiting event => if l.fired event then some (r.top l) else none
  | .returned => none

def overtake (runId : String) (r : Reader) : Reader :=
  match r.place with
  | .yielding .. => if r.runId = runId then { r with overtaken := true } else r
  | _ => r

end Reader

/-- The log and its readers, and all that was appended for each run since its
log was started. -/
structure Broadcast where
  log : RunLog := {}
  readers : List Reader := []
  said : String → List Bytes := fun _ => []

inductive Event
  | start (runId : String)
  | append (runId : String) (chunk : Bytes)
  | end_ (runId : String)
  | follow (runId : String)
  | resume (i : Nat)
  deriving DecidableEq, Repr

def next (b : Broadcast) : Event → Option Broadcast
  | .start runId => some { b with log := b.log.start runId, said := Function.update b.said runId [] }
  | .append runId chunk => some {
      log := b.log.append runId chunk
      readers := b.readers.map (Reader.overtake runId)
      said := Function.update b.said runId ((if b.log.has runId then b.said runId else []) ++ [chunk]) }
  | .end_ runId => some { b with log := b.log.end_ runId }
  | .follow runId => some { b with readers := b.readers ++ [{ runId := runId }] }
  | .resume i => b.readers[i]?.bind fun r => (r.resume b.log).map fun r => { b with readers := b.readers.set i r }

end CodeZard.RunLogs
