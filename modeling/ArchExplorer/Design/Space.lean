import ArchExplorer.Lib.Dict
import ArchExplorer.Lib.Exec

/-!
# The design space

A design lists the candidate rows of its components, and the tables of the components hold the
parameters of each row. A microarchitecture is an index, a vector of row numbers or an embedding,
the concatenation of the parameters of its rows.
-/

namespace ArchExplorer.Design

open ArchExplorer.Lib

/-- The exceptions of the conversions. -/
inductive PyError where
  | keyError (msg : String)
  | indexError (msg : String)
  | valueError (msg : String)
  | zeroDivisionError
  | assertionError (msg : String)
  deriving DecidableEq, Repr

/-- The keys of a table. -/
inductive Key where
  | description
  | row (id : ℤ)
  deriving DecidableEq, Repr

/-- The table of a component: the names of its parameters and their values, row by row. -/
structure Table where
  description : List String
  rows : Dict ℤ (List ℤ)

/-- `np.prod` over lengths, a signed 64-bit product. -/
def npProd (l : List ℕ) : ℤ := Int.bmod l.prod (2 ^ 64)

/-- `np.cumsum` over signed 64-bit integers. -/
def npCumsum (acc : ℤ) : List ℤ → List ℤ
  | []      => []
  | a :: as => Int.bmod (acc + a) (2 ^ 64) :: npCumsum (Int.bmod (acc + a) (2 ^ 64)) as

/-- `sum` over signed 64-bit integers. -/
def npSum (l : List ℤ) : ℤ := Int.bmod l.sum (2 ^ 64)

def constructComponentDims (descriptions : Dict String (Dict String (List ℤ))) : List (List ℕ) :=
  descriptions.values.map fun v => v.values.map List.length

def constructDesignSize (descriptions : Dict String (Dict String (List ℤ))) : List ℤ :=
  (constructComponentDims descriptions).map npProd

/-- A design space. Its construction fails unless the size is the sum of the sizes of the designs,
of which there is at least one. -/
structure O3CPUDesignSpace where
  descriptions : Dict String (Dict String (List ℤ))
  componentsMappings : Dict String Table
  size : ℤ
  nonempty : descriptions.items ≠ []
  size_eq : npSum (constructDesignSize descriptions) = size

namespace O3CPUDesignSpace

def designs (s : O3CPUDesignSpace) : List String := s.descriptions.keys

/-- The components of the first design. -/
def components (s : O3CPUDesignSpace) : List String := (s.descriptions.items.head s.nonempty).2.keys

def accDesignSize (s : O3CPUDesignSpace) : List ℤ :=
  npCumsum 0 (constructDesignSize s.descriptions)

def componentDims (s : O3CPUDesignSpace) : List (List ℕ) := constructComponentDims s.descriptions

def valid (s : O3CPUDesignSpace) (idx : ℤ) : Except PyError Unit :=
  if 0 < idx ∧ idx ≤ s.size then .ok () else .error (.assertionError "[ERROR] invalid index.")

end O3CPUDesignSpace

/-- Read an item of a dictionary. -/
def getItem {V : Type} (d : Dict String V) (k : String) : Except PyError V :=
  match d.get? k with
  | some v => .ok v
  | none   => .error (.keyError k)

/-- Read an item of a list. -/
def listItem {V : Type} (l : List V) (i : ℕ) : Except PyError V :=
  match l[i]? with
  | some v => .ok v
  | none   => .error (.indexError "list index out of range")

/-! ### Vectors and embeddings -/

/-- The parameters of a row of the component `name`. -/
def getMappingParams (mappings : Dict String Table) (name : String) (id : ℤ) :
    Except PyError (List ℤ) := do
  let table ← getItem mappings name
  match table.rows.get? id with
  | some params => return params
  | none        => .error (.keyError (toString id))

/-- The key with the given parameters. The search starts with the description; a list of numbers and
a list of names are equal only if both are empty. -/
def getMappingIdx (table : Table) (params : List ℤ) : Option Key :=
  if params = [] ∧ table.description = [] then some .description
  else (table.rows.items.find? fun p => params = p.2).map fun p => .row p.1

def vecToEmbedding (mappings : Dict String Table) : List String → List ℤ → Except PyError (List ℤ)
  | _,       []        => .ok []
  | [],      _ :: _    => .error (.indexError "list index out of range")
  | c :: cs, id :: vec => do
    let params ← getMappingParams mappings c id
    return params ++ (← vecToEmbedding mappings cs vec)

/-- Each component takes as many parameters off the embedding as its description has. -/
def embeddingToVec (mappings : Dict String Table) :
    List String → List ℤ → Except PyError (List (Option Key))
  | [],      _         => .ok []
  | c :: cs, embedding => do
    let table ← getItem mappings c
    let l := table.description.length
    return getMappingIdx table (embedding.take l) ::
      (← embeddingToVec mappings cs (embedding.drop l))

/-! ### Indices and vectors -/

/-- The positions of the candidates that an index stands for. -/
def splitIdx : List ℕ → ℤ → Except PyError (List ℕ)
  | [],          _   => .ok []
  | dim :: dims, idx =>
    if dim = 0 then .error .zeroDivisionError
    else do
      return (idx % dim).toNat :: (← splitIdx dims (idx / dim))

/-- Replace positions by candidates. -/
def pickCandidates (design : Dict String (List ℤ)) :
    List String → List ℕ → Except PyError (List ℤ)
  | _,       []        => .ok []
  | [],      _ :: _    => .error (.indexError "list index out of range")
  | c :: cs, i :: vec  => do
    let candidates ← getItem design c
    let id ← listItem candidates i
    return id :: (← pickCandidates design cs vec)

/-- The position of a key among the candidates, which are row numbers. -/
def indexOf (candidates : List ℤ) : Option Key → Except PyError ℕ
  | some (.row id)    =>
    match candidates.findIdx? (· = id) with
    | some i => .ok i
    | none   => .error (.valueError (toString id ++ " is not in list"))
  | some .description => .error (.valueError "'description' is not in list")
  | none              => .error (.valueError "None is not in list")

/-- Replace keys by their positions among the candidates. -/
def indexCandidates (design : Dict String (List ℤ)) :
    List String → List (Option Key) → Except PyError (List ℕ)
  | _,       []       => .ok []
  | [],      _ :: _   => .error (.indexError "list index out of range")
  | c :: cs, k :: vec => do
    let candidates ← getItem design c
    let i ← indexOf candidates k
    return i :: (← indexCandidates design cs vec)

namespace O3CPUDesignSpace

/-- Subtract the sizes of the designs before `design`. -/
def offset (s : O3CPUDesignSpace) (design : ℕ) : Except PyError ℤ :=
  if design = 0 then .ok 0 else listItem s.accDesignSize (design - 1)

def idxToVec (s : O3CPUDesignSpace) (idx : ℤ) : Except PyError (List ℤ) := do
  s.valid idx
  let idx := idx - 1
  match s.accDesignSize.findIdx? (fun acc => idx < acc) with
  | none        => .error (.indexError "index 0 is out of bounds for axis 0 with size 0")
  | some design =>
    let offset ← s.offset design
    let vec ← splitIdx (← listItem s.componentDims design) (idx - offset)
    let name ← listItem s.designs design
    pickCandidates (← getItem s.descriptions name) s.components vec

/-- The first design is used for every vector. -/
def vecToIdx (s : O3CPUDesignSpace) (vec : List (Option Key)) : Except PyError ℤ := do
  let name ← listItem s.designs 0
  let vec ← indexCandidates (← getItem s.descriptions name) s.components vec
  let dims ← listItem s.componentDims 0
  let idx := (vec.zipIdx.map fun p => npProd (dims.take p.2) * p.1).sum + 1
  s.valid idx
  return idx

def idxToEmbedding (s : O3CPUDesignSpace) (idx : ℤ) : Except PyError (List ℤ) := do
  let vec ← s.idxToVec idx
  vecToEmbedding s.componentsMappings s.components vec

def embeddingToIdx (s : O3CPUDesignSpace) (embedding : List ℤ) : Except PyError ℤ := do
  let vec ← embeddingToVec s.componentsMappings s.components embedding
  s.vecToIdx vec

end O3CPUDesignSpace

end ArchExplorer.Design
