import ZManager.Safety.Planner

/-! # The order of deferred links

Links are made after all files. A link whose source is itself a deferred link
has to wait for that link, and every other source has to exist already.
-/

namespace ZManager

/-- The index of the link with the given destination; the last one when several
share it. -/
def destinationIndex (links : List (PathBuf × PathBuf)) (path : PathBuf) : Option Nat :=
  ((links.zipIdx.filter fun link => link.1.2 = path).getLast?).map Prod.snd

/-- The order in which a queue of ready links is worked off; a link that waits
for the one taken becomes ready. Every link is taken at most once, so as many
steps as there are links are enough. -/
def readyOrder (dependency : Nat → Option Nat) (count : Nat) : Nat → List Nat → List Nat
  | 0, _ | _ + 1, [] => []
  | steps + 1, index :: queue =>
    index :: readyOrder dependency count steps
      (queue ++ (List.range count).filter fun dependent => dependency dependent = some index)

/-- A materialization order of `(source, destination)` pairs. Missing sources and
cycles are rejected. -/
def deferredLinkDependencyOrder {Content : Type} (fs : FileSystem Content)
    (links : List (PathBuf × PathBuf)) : Except IoError (List Nat) := do
  links.forM fun link =>
    if (destinationIndex links link.1).isSome then .ok ()
    else
      match fs.lstat link.1 with
      | .ok _ => .ok ()
      | .error kind => .error ⟨kind, "deferred link target was not materialized: " ++
          String.ofList link.1.toText⟩
  let dependency := fun index => (links[index]?).bind fun link => destinationIndex links link.1
  let ready := (List.range links.length).filter fun index => dependency index = none
  let order := readyOrder dependency links.length links.length ready
  if order.length ≠ links.length then .error ⟨.invalidData, "deferred link dependency cycle"⟩
  else .ok order

end ZManager
