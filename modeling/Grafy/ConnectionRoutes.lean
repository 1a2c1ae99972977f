import Grafy.GraphDocuments

/-!
The routes by which the canvas offers to connect an output to an input: as it is, through a
field of the source artifact, through conversions, or both. A search offers the shortest
paths of conversions, within limits; a saved selection is replayed step by step. The handles
are taken as they are decoded.
-/
namespace Grafy.ConnectionRoutes

open CanonicalJson GraphDocuments

structure FieldProjection where
  path : List String
  targetArtifactType : ArtifactTypeKey
  title : String
deriving DecidableEq

structure ArtifactTypeSpec where
  key : ArtifactTypeKey
  fieldProjections : List FieldProjection

structure ArtifactConversionSpec where
  key : GraphConversion
  sourceArtifactType : ArtifactTypeKey
  targetArtifactType : ArtifactTypeKey
  title : String
deriving DecidableEq

inductive Direction
  | input
  | output
deriving DecidableEq

/-- The type part of a handle. -/
inductive HandleType
  | concrete (artifactType : ArtifactTypeKey) (alsoAccepts : List ArtifactTypeKey)
  | generic (typeVariable : String)

/-- What `decodeHandleId` reads from a handle, as far as routes depend on it. -/
structure DecodedHandle where
  direction : Direction
  type : HandleType

/-- `artifactTypeKey`: the text by which the canvas compares artifact types. -/
def artifactTypeKey (key : ArtifactTypeKey) : List Char :=
  key.id.toList ++ '@' :: intText key.schemaVersion

/-- `acceptedHandleArtifactTypes`, primary type first. -/
def acceptedHandleArtifactTypes (handle : DecodedHandle) : List ArtifactTypeKey :=
  match handle.type with
  | .concrete artifactType alsoAccepts => artifactType :: alsoAccepts
  | .generic _ => []

inductive Endpoint
  | source
  | target
deriving DecidableEq

structure ArtifactTypeBinding where
  endpoint : Endpoint
  typeVariable : String
  artifactType : ArtifactTypeKey
deriving DecidableEq

inductive RouteKind
  | exact
  | projection (projection : FieldProjection)
  | conversion
  | projectionConversion (projection : FieldProjection)
deriving DecidableEq

structure ConnectionRoute where
  kind : RouteKind
  conversionPath : List ArtifactConversionSpec
  artifactTypeBinding : Option ArtifactTypeBinding
deriving DecidableEq

structure RouteSelection where
  projection : Option (List String)
  conversionPath : List GraphConversion

def maxConversionPathLength : ℕ := 8

def maxConversionSearchStates : ℕ := 4096

def maxConversionPathCandidates : ℕ := 256

/-- `connectionRoute`. -/
def connectionRoute (projection : Option FieldProjection)
    (conversionPath : List ArtifactConversionSpec) (binding : Option ArtifactTypeBinding) :
    ConnectionRoute where
  kind := match projection, conversionPath with
    | some p, [] => .projection p
    | some p, _ :: _ => .projectionConversion p
    | none, [] => .exact
    | none, _ :: _ => .conversion
  conversionPath := conversionPath
  artifactTypeBinding := binding

/-- `connectionRouteSelection`. -/
def connectionRouteSelection (route : ConnectionRoute) : RouteSelection where
  projection := match route.kind with
    | .projection p | .projectionConversion p => some p.path
    | .exact | .conversion => none
  conversionPath := route.conversionPath.map (fun conversion => conversion.key)

section Search

variable (localeCompare : String → String → Int)

/-- `Array.prototype.sort` with a comparison. -/
def sortBy {A : Type*} (compare : A → A → Int) (l : List A) : List A :=
  l.mergeSort (fun a b => compare a b ≤ 0)

def compareConversions (left right : ArtifactConversionSpec) : Int :=
  let byId := localeCompare left.key.id right.key.id
  if byId ≠ 0 then byId else (left.key.version : Int) - right.key.version

def compareConversionPaths : List ArtifactConversionSpec → List ArtifactConversionSpec → Int
  | step :: left, other :: right =>
    let comparison := compareConversions localeCompare step other
    if comparison ≠ 0 then comparison else compareConversionPaths left right
  | left, right => (left.length : Int) - right.length

/-- One state of the search: where a path has come to, and what it has passed. -/
structure SearchState where
  artifactType : ArtifactTypeKey
  conversionPath : List ArtifactConversionSpec
  visitedArtifactTypes : List (List Char)

/-- What one depth of the search has found so far. -/
structure SearchLevel where
  expandedStates : ℕ
  completed : List (List ArtifactConversionSpec)
  nextFrontier : List SearchState

/-- One conversion out of a state, or none where the search gives up. -/
def expandConversion (target : ArtifactTypeKey) (state : SearchState) (level : SearchLevel)
    (conversion : ArtifactConversionSpec) : Option SearchLevel :=
  let nextKey := artifactTypeKey conversion.targetArtifactType
  if state.visitedArtifactTypes.contains nextKey then some level
  else
    let conversionPath := state.conversionPath ++ [conversion]
    if level.expandedStates + 1 > maxConversionSearchStates then none
    else if nextKey = artifactTypeKey target then
      if level.completed.length + 1 > maxConversionPathCandidates then none
      else some
        { level with
          expandedStates := level.expandedStates + 1
          completed := level.completed ++ [conversionPath] }
    else some
      { level with
        expandedStates := level.expandedStates + 1
        nextFrontier := level.nextFrontier ++
          [⟨conversion.targetArtifactType, conversionPath,
            state.visitedArtifactTypes ++ [nextKey]⟩] }

/-- The conversions whose source is a type, in their sorted order. -/
def conversionsBySource (sorted : List ArtifactConversionSpec) (artifactType : ArtifactTypeKey) :
    List ArtifactConversionSpec :=
  sorted.filter (fun conversion =>
    artifactTypeKey conversion.sourceArtifactType = artifactTypeKey artifactType)

def expandState (sorted : List ArtifactConversionSpec) (target : ArtifactTypeKey)
    (level : SearchLevel) (state : SearchState) : Option SearchLevel :=
  (conversionsBySource sorted state.artifactType).foldlM (expandConversion target state) level

/-- The rest of the search, of so many depths. A search that ends at the bound offers
nothing. -/
def searchFrom (sorted : List ArtifactConversionSpec) (target : ArtifactTypeKey) :
    ℕ → List SearchState → ℕ → Option (List (List ArtifactConversionSpec))
  | 0, _, _ => some []
  | depth + 1, frontier, expandedStates => do
    let level ← frontier.foldlM (expandState sorted target) ⟨expandedStates, [], []⟩
    if level.completed ≠ [] then
      return sortBy (compareConversionPaths localeCompare) level.completed
    else if level.nextFrontier.isEmpty then return []
    else searchFrom sorted target depth level.nextFrontier level.expandedStates

def shortestConversionPaths (source target : ArtifactTypeKey)
    (conversions : List ArtifactConversionSpec) : Option (List (List ArtifactConversionSpec)) :=
  if artifactTypeKey source = artifactTypeKey target then some [[]]
  else searchFrom localeCompare (sortBy (compareConversions localeCompare) conversions) target
    maxConversionPathLength [⟨source, [], [artifactTypeKey source]⟩] 0

def shortestConversionPathsToAny (source : ArtifactTypeKey) (targets : List ArtifactTypeKey)
    (conversions : List ArtifactConversionSpec) :
    Option (List (List ArtifactConversionSpec)) := do
  let paths ← targets.mapM (fun target =>
    shortestConversionPaths localeCompare source target conversions)
  return paths.flatten

/-- `sortedConversionTargetTypes`. -/
def sortedConversionTargetTypes (conversions : List ArtifactConversionSpec) :
    List ArtifactTypeKey :=
  sortBy (fun left right => localeCompare (String.ofList (artifactTypeKey left))
      (String.ofList (artifactTypeKey right)))
    (conversions.map (fun conversion => conversion.targetArtifactType)).eraseDups

/-- `genericTargetRoutesFrom`. -/
def genericTargetRoutesFrom (sourceArtifactType : ArtifactTypeKey)
    (projection : Option FieldProjection) (typeVariable : String)
    (conversions : List ArtifactConversionSpec) : Option (List ConnectionRoute) :=
  (sortedConversionTargetTypes localeCompare conversions).foldlM (fun routes target =>
    if artifactTypeKey sourceArtifactType = artifactTypeKey target then some routes
    else do
      let paths ← shortestConversionPaths localeCompare sourceArtifactType target conversions
      paths.foldlM (fun routes path =>
        if routes.length + 1 > maxConversionPathCandidates then none
        else some (routes ++ [connectionRoute projection path
          (some ⟨.target, typeVariable, target⟩)])) routes)
    [connectionRoute projection [] (some ⟨.target, typeVariable, sourceArtifactType⟩)]

/-- The projections of an artifact type, in the order they are offered. -/
def sortedProjections (sourceArtifact : Option ArtifactTypeSpec) : List FieldProjection :=
  sortBy (fun left right =>
      let byPath := localeCompare (".".intercalate left.path) (".".intercalate right.path)
      if byPath ≠ 0 then byPath else localeCompare left.title right.title)
    (sourceArtifact.elim [] (fun spec => spec.fieldProjections))

def findArtifact (artifactTypes : List ArtifactTypeSpec) (key : ArtifactTypeKey) :
    Option ArtifactTypeSpec :=
  artifactTypes.find? (fun artifact => artifactTypeKey artifact.key = artifactTypeKey key)

/-- The routes of each projection added to those there are, as long as they stay few. -/
def addProjectionRoutes (routesOf : FieldProjection → Option (List ConnectionRoute)) :
    List FieldProjection → List ConnectionRoute → List ConnectionRoute
  | [], routes => routes
  | projection :: rest, routes =>
    match routesOf projection with
    | none => []
    | some projectionRoutes =>
      if routes.length + projectionRoutes.length > maxConversionPathCandidates then []
      else addProjectionRoutes routesOf rest (routes ++ projectionRoutes)

/-- `connectionRoutesFor`. -/
def connectionRoutesFor (source target : Option DecodedHandle)
    (artifactTypes : List ArtifactTypeSpec) (conversions : List ArtifactConversionSpec) :
    List ConnectionRoute :=
  match source, target with
  | some source, some target =>
    if source.direction ≠ .output ∨ target.direction ≠ .input then []
    else match source.type, target.type with
      | .generic _, .generic _ => []
      | .generic typeVariable, .concrete artifactType _ =>
        [connectionRoute none [] (some ⟨.source, typeVariable, artifactType⟩)]
      | .concrete artifactType _, .generic typeVariable =>
        match genericTargetRoutesFrom localeCompare artifactType none typeVariable conversions with
        | none => []
        | some routes =>
          addProjectionRoutes (fun projection => genericTargetRoutesFrom localeCompare
              projection.targetArtifactType (some projection) typeVariable conversions)
            (sortedProjections localeCompare (findArtifact artifactTypes artifactType)) routes
      | .concrete artifactType _, .concrete _ _ =>
        let targets := acceptedHandleArtifactTypes target
        if targets.any (fun candidate => artifactTypeKey candidate = artifactTypeKey artifactType)
        then [⟨.exact, [], none⟩]
        else match shortestConversionPathsToAny localeCompare artifactType targets conversions with
          | none => []
          | some paths =>
            if paths.length > maxConversionPathCandidates then []
            else addProjectionRoutes (fun projection =>
                (shortestConversionPathsToAny localeCompare projection.targetArtifactType targets
                  conversions).map (fun paths => paths.map (fun path =>
                    connectionRoute (some projection) path none)))
              (sortedProjections localeCompare (findArtifact artifactTypes artifactType))
              (paths.map (fun path => connectionRoute none path none))
  | _, _ => []

end Search

section Selection

/-- The loop of `connectionRouteForSelection` over the requested conversions. -/
def replayConversions (conversions : List ArtifactConversionSpec) :
    List GraphConversion → ArtifactTypeKey → List (List Char) →
      Option (List ArtifactConversionSpec × ArtifactTypeKey)
  | [], current, _ => some ([], current)
  | requested :: rest, current, visited => do
    let conversion ← conversions.find? (fun candidate => candidate.key = requested)
    if artifactTypeKey conversion.sourceArtifactType ≠ artifactTypeKey current then none
    else
      let nextKey := artifactTypeKey conversion.targetArtifactType
      if visited.contains nextKey then none
      else do
        let (path, final) ← replayConversions conversions rest conversion.targetArtifactType
          (nextKey :: visited)
        return (conversion :: path, final)

/-- The projection that a selection asks for, or none where the source lacks it. -/
def selectProjection (sourceArtifact : Option ArtifactTypeSpec) :
    Option (List String) → Option (Option FieldProjection)
  | none => some none
  | some path => do
    let spec ← sourceArtifact
    let projection ← spec.fieldProjections.find? (fun candidate => candidate.path = path)
    return some projection

/-- `connectionRouteForSelection`. -/
def connectionRouteForSelection (source target : Option DecodedHandle)
    (artifactTypes : List ArtifactTypeSpec) (conversions : List ArtifactConversionSpec)
    (selection : RouteSelection) : Option ConnectionRoute :=
  match source, target with
  | some source, some target =>
    match source.type, target.type with
    | .concrete sourceArtifactType _, .concrete _ _ => do
      if source.direction ≠ .output ∨ target.direction ≠ .input ∨
        selection.conversionPath.length > maxConversionPathLength then none
      else do
        let projection ← selectProjection (findArtifact artifactTypes sourceArtifactType)
          selection.projection
        let start := projection.elim sourceArtifactType (fun p => p.targetArtifactType)
        let (path, final) ← replayConversions conversions selection.conversionPath start
          [artifactTypeKey start]
        if (acceptedHandleArtifactTypes target).any (fun candidate => final = candidate) then
          some (connectionRoute projection path none)
        else none
    | _, _ => none
  | _, _ => none

end Selection

end Grafy.ConnectionRoutes
