/-
Shards (`internal/shard`): an active segment over an immutable one.

Writes go to the active segment; a deletion of a record of the immutable segment is
remembered as a tombstone.  The identifiers of generations and their readers are left out.
-/
import GideonDB.Segment.Spec
import GideonDB.Store.Layers

namespace GideonDB

open Go GideonDB.Core Segment Store

/-- `Shard`. -/
structure Shard where
  config : CollectionConfig
  active : Segment
  /-- The segment of the last checkpoint. -/
  immutable : Option Segment
  tombstones : GoMap GoString Unit
  count : ℤ

namespace Shard

/-- `New`. -/
def new (config : CollectionConfig) : Shard := ⟨config, Segment.new config, none, .empty, 0⟩

/-- `existed`. -/
def existed (sh : Shard) (ns id : GoString) : Bool :=
  sh.active.has ns id ||
    match sh.immutable with
    | some base => !sh.tombstones.has (recordKey ns id) && base.has ns id
    | none => false

/-- `Upsert`. -/
def upsert (lib : Metadata.Library) (sh : Shard) (record : Record) : Shard × Option Error :=
  match sh.active.upsert lib record with
  | (active, some err) => ({ sh with active := active }, some err)
  | (active, none) =>
    ({ sh with
      active := active
      tombstones := sh.tombstones.delete record.key
      count := if sh.existed record.ns record.id then sh.count else sh.count + 1 }, none)

/-- `Get`. -/
def get (sh : Shard) (ns id : GoString) : Except Error Record :=
  match sh.active.get ns id with
  | .ok record => .ok record
  | .error .notFound =>
    match sh.immutable with
    | none => .error .notFound
    | some base =>
      if sh.tombstones.has (recordKey ns id) then .error .notFound else base.get ns id
  | .error err => .error err

/-- Whether the immutable segment has a record, or the error with which it fails. -/
def immutableExists (sh : Shard) (ns id : GoString) : Except Error Bool :=
  match sh.immutable with
  | none => .ok false
  | some base =>
    match base.get ns id with
    | .ok _ => .ok true
    | .error .notFound => .ok false
    | .error err => .error err

/-- The last part of `Delete`. -/
def bury (sh : Shard) (key : GoString) (exists' : Bool) : Shard :=
  { sh with
    tombstones := if exists' then sh.tombstones.set key () else sh.tombstones
    count := sh.count - 1 }

/-- `Delete`. -/
def delete (lib : Metadata.Library) (sh : Shard) (ns id : GoString) : Shard × Option Error :=
  match sh.immutableExists ns id with
  | .error err => (sh, some err)
  | .ok immutableExists =>
    match sh.active.get ns id with
    | .ok _ =>
      match sh.active.delete lib ns id with
      | (active, some err) => ({ sh with active := active }, some err)
      | (active, none) =>
        ({ sh with active := active }.bury (recordKey ns id) immutableExists, none)
    | .error .notFound =>
      if !immutableExists || sh.tombstones.has (recordKey ns id) then (sh, some .notFound)
      else (sh.bury (recordKey ns id) immutableExists, none)
    | .error err => (sh, some err)

/-- The records of the base. -/
def baseMap (sh : Shard) : GoMap GoString Record :=
  match sh.immutable with
  | some base => GoMap.empty.setAll (entriesOf base.list)
  | none => .empty

/-- `Records`. -/
def list (sh : Shard) : List Record :=
  sortRecords ((Layer.overlay sh.baseMap sh.tombstones.keys (entriesOf sh.active.list)).toList.map
    Prod.snd)

def checkpointDelta (sh : Shard) : List Record × List GoString :=
  (sh.active.list, sortStrings sh.tombstones.keys)

/-- `Len`. -/
def len (sh : Shard) : ℤ := sh.count

def installImmutable (sh : Shard) (base : Segment) : Shard :=
  { sh with
    active := Segment.new sh.config
    immutable := some base
    tombstones := .empty
    count := base.len }

end Shard

end GideonDB
