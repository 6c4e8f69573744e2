/-
The configuration of a collection as the catalog keeps it (`core/types.go`, `core/vectors.go`):
its defaults and its checks.

The names of metrics, index families, quantizations and datatypes are strings in the source.  Here
a known name is a constructor, the empty one is another, and anything else keeps its text, which
the error messages quote.  Numbers of type `int` are integers.  `Alpha` is a `float32`, by its
bits; among the numbers that are not negative the order is that of the bits, and no NaN is below
the bits of two.
-/
import GideonDB.Core.Record

namespace GideonDB.Catalog

open Go GideonDB.Core

/-- `Metric`. -/
inductive Metric
  | cosine | dot | l2
  | other (name : GoString)
deriving DecidableEq

/-- `IndexType`. -/
inductive IndexName
  | unset
  | known (type : IndexType)
  | other (name : GoString)
deriving DecidableEq

/-- `Quantization`. -/
inductive Quantization
  | none | binary | pq
  | other (name : GoString)
deriving DecidableEq

/-- `Datatype`. -/
inductive DatatypeName
  | unset
  | known (datatype : Datatype)
  | other (name : GoString)
deriving DecidableEq

/-- `IndexConfig`. -/
structure IndexConfig where
  type : IndexName
  m : ℤ
  efConstruction : ℤ
  efSearch : ℤ
  quantization : Quantization
  oversampling : ℤ
  pqSubspaces : ℤ
  maxDegree : ℤ
  alpha : BitVec 32
deriving DecidableEq

/-- `VectorField`. -/
structure VectorField where
  dimension : ℤ
  metric : Metric
  index : IndexConfig
  datatype : DatatypeName
  multiVector : Bool
deriving DecidableEq

/-- `CollectionConfig`. -/
structure CollectionConfig where
  name : GoString
  dimension : ℤ
  metric : Metric
  shardCount : ℤ
  index : IndexConfig
  vectorizer : GoString
  vectors : GoMap GoString VectorField

/-- The errors of `Validate`; all of them are `ErrInvalidArgument`. -/
inductive ConfigError
  /-- A message without an operand. -/
  | text (message : String)
  /-- `unsupported metric %q`. -/
  | metric (name : Metric)
  /-- `unsupported index type %q`. -/
  | indexType (name : IndexName)
  /-- `unsupported quantization %q`. -/
  | quantization (name : Quantization)
  /-- `vector field name %q must match ^[a-zA-Z][a-zA-Z0-9_-]{0,63}$`. -/
  | fieldName (field : GoString)
  /-- `vector field %q dimension must be between 1 and 65536`. -/
  | fieldDimension (field : GoString)
  /-- `vector field %q has unsupported metric %q`. -/
  | fieldMetric (field : GoString) (name : Metric)
  /-- `vector field %q has unsupported datatype %q`. -/
  | fieldDatatype (field : GoString) (name : DatatypeName)
  /-- `vector field %q: quantization is only supported on the default vector`. -/
  | fieldQuantization (field : GoString)
  /-- `vector field %q: %w`. -/
  | field (field : GoString) (error : ConfigError)
deriving DecidableEq

/-! ### Defaults -/

/-- The default, for a zero. -/
def orDefault (value default : ℤ) : ℤ := if value = 0 then default else value

/-- `c.Index.Alpha == 0`. -/
def alphaIsZero (alpha : BitVec 32) : Bool := alpha = 0 ∨ alpha = 0x80000000

/-- The number of subspaces for a dimension: its eighth, or the next smaller exact split. -/
def defaultSubspaces (dimension : ℤ) : ℤ :=
  if 0 < dimension then
    match [8, 4, 2, 1].find? fun width => dimension % width = 0 with
    | some width => dimension / width
    | none => 0
  else 0

/-- `CollectionConfig.Normalized`, on the part that it changes. -/
def IndexConfig.normalized (index : IndexConfig) (dimension : ℤ) : IndexConfig :=
  let index := match index.type with
    | .unset => { index with type := .known .flat }
    | .known .hnsw => { index with
        m := orDefault index.m 16
        efConstruction := orDefault index.efConstruction 100
        efSearch := orDefault index.efSearch 64 }
    | .known .diskann => { index with
        maxDegree := orDefault index.maxDegree 64
        alpha := if alphaIsZero index.alpha then 0x3f99999a else index.alpha
        efConstruction := orDefault index.efConstruction 128
        efSearch := orDefault index.efSearch 100 }
    | _ => index
  match index.quantization with
  | .binary => { index with oversampling := orDefault index.oversampling 4 }
  | .pq => { index with
      oversampling := orDefault index.oversampling 8
      pqSubspaces := if index.pqSubspaces = 0 then defaultSubspaces dimension
        else index.pqSubspaces }
  | _ => index

/-- `Normalized`. -/
def CollectionConfig.normalized (config : CollectionConfig) : CollectionConfig :=
  { config with index := config.index.normalized config.dimension }

/-- `VectorField.Normalized`; the dimension of the probe it normalizes is zero. -/
def VectorField.normalized (field : VectorField) : VectorField :=
  { field with
    datatype := match field.datatype with
      | .unset => .known .float32
      | datatype => datatype
    index := field.index.normalized 0 }

/-! ### Checks -/

def isLower (b : UInt8) : Bool := 97 ≤ b && b ≤ 122

def isUpper (b : UInt8) : Bool := 65 ≤ b && b ≤ 90

def isNumeral (b : UInt8) : Bool := 48 ≤ b && b ≤ 57

def isJoiner (b : UInt8) : Bool := b == 95 || b == 45

/-- A first byte of one kind and at most 63 of another. -/
def matchesName (first rest : UInt8 → Bool) : GoString → Bool
  | [] => false
  | b :: name => first b && name.length ≤ 63 && name.all rest

/-- `vectorizerName`: `^[a-z0-9][a-z0-9_-]{0,63}$`. -/
def vectorizerName : GoString → Bool :=
  matchesName (fun b => isLower b || isNumeral b)
    fun b => isLower b || isNumeral b || isJoiner b

/-- `vectorFieldName`: `^[a-zA-Z][a-zA-Z0-9_-]{0,63}$`. -/
def vectorFieldName : GoString → Bool :=
  matchesName (fun b => isLower b || isUpper b)
    fun b => isLower b || isUpper b || isNumeral b || isJoiner b

/-- `Valid`. -/
def Metric.valid : Metric → Bool
  | .other _ => false
  | _ => true

/-- An error unless the condition holds. -/
def check (condition : Bool) (error : ConfigError) : Except ConfigError Unit :=
  if condition then .ok () else .error error

def within (low value high : ℤ) : Bool := low ≤ value && value ≤ high

/-- The checks of `Validate` on the index family. -/
def IndexConfig.validateType (index : IndexConfig) : Except ConfigError Unit :=
  match index.type with
  | .known .flat => .ok ()
  | .known .hnsw => do
      check (within 2 index.m 128) (.text "hnsw m must be between 2 and 128")
      check (within index.m index.efConstruction 10000)
        (.text "hnsw ef_construction must be between m and 10000")
      check (within 1 index.efSearch 10000) (.text "hnsw ef_search must be between 1 and 10000")
  | .known .diskann => do
      check (index.m = 0) (.text "diskann uses max_degree, not m")
      check (within 4 index.maxDegree 256)
        (.text "diskann max_degree must be between 4 and 256")
      check (0x3f800000 ≤ index.alpha && index.alpha ≤ 0x40000000)
        (.text "diskann alpha must be between 1 and 2")
      check (within index.maxDegree index.efConstruction 10000)
        (.text "diskann ef_construction must be between max_degree and 10000")
      check (within 1 index.efSearch 10000) (.text "diskann ef_search must be between 1 and 10000")
  | _ => .error (.indexType index.type)

/-- The checks of `Validate` on the quantization. -/
def IndexConfig.validateQuantization (index : IndexConfig) (dimension : ℤ) :
    Except ConfigError Unit :=
  match index.quantization with
  | .none => check (index.oversampling = 0) (.text "oversampling requires quantization")
  | .binary => do
      check (index.type = .known .flat) (.text "binary quantization requires the flat index")
      check (within 1 index.oversampling 100) (.text "oversampling must be between 1 and 100")
  | .pq => do
      check (index.type = .known .flat) (.text "pq quantization requires the flat index")
      check (within 1 index.oversampling 100) (.text "oversampling must be between 1 and 100")
      check (within 1 index.pqSubspaces dimension && dimension % index.pqSubspaces = 0)
        (.text "pq_subspaces must be positive and divide the dimension")
  | .other name => .error (.quantization (.other name))

/-- `Validate` up to the named fields, on a normalized configuration. -/
def CollectionConfig.validateIndex (config : CollectionConfig) : Except ConfigError Unit := do
  check (config.name ≠ []) (.text "collection name is required")
  check (0 < config.dimension) (.text "dimension must be positive")
  check config.metric.valid (.metric config.metric)
  check (0 < config.shardCount) (.text "shard_count must be positive")
  check (config.vectorizer = [] ∨ vectorizerName config.vectorizer = true)
    (.text "vectorizer must match ^[a-z0-9][a-z0-9_-]\x7b0,63\x7d$")
  config.index.validateType
  check (config.index.pqSubspaces = 0 ∨ config.index.quantization = .pq)
    (.text "pq_subspaces requires pq quantization")
  check (config.index.type = .known .diskann ∨
      config.index.maxDegree = 0 ∧ alphaIsZero config.index.alpha = true)
    (.text "max_degree and alpha require the diskann index")
  config.index.validateQuantization config.dimension

/-- `VectorField.validate`.  The probe has no named fields of its own. -/
def VectorField.validate (name : GoString) (declared : VectorField) : Except ConfigError Unit := do
  let field := declared.normalized
  check (vectorFieldName name) (.fieldName name)
  check (within 1 field.dimension 65536) (.fieldDimension name)
  check field.metric.valid (.fieldMetric name field.metric)
  match field.datatype with
    | .known _ => .ok ()
    | datatype => .error (.fieldDatatype name datatype)
  check (field.index.quantization = .none) (.fieldQuantization name)
  let probe : CollectionConfig :=
    ⟨bytes "field", field.dimension, field.metric, 1, field.index, [], .empty⟩
  probe.normalized.validateIndex.mapError (.field name)

def CollectionConfig.validateVectorFields (config : CollectionConfig) : Except ConfigError Unit := do
  check (config.vectors.toList.length ≤ 16) (.text "at most 16 named vector fields are supported")
  config.vectors.toList.forM fun field => field.2.validate field.1

/-- `Validate`. -/
def CollectionConfig.validate (declared : CollectionConfig) : Except ConfigError Unit := do
  let config := declared.normalized
  config.validateIndex
  config.validateVectorFields

def CollectionConfig.minimal (name : GoString) : CollectionConfig :=
  ⟨name, 1, .dot, 1, ⟨.unset, 0, 0, 0, .none, 0, 0, 0, 0⟩, [], .empty⟩

example : (CollectionConfig.minimal (bytes "c")).validate = .ok () := by decide +kernel

end GideonDB.Catalog
