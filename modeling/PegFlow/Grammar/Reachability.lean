/-
# PegFlow.Grammar.Reachability — what can be reached in a graph

A graph has the nodes `0 .. n - 1` and lists of successors. `closure` adds the
successors of the newest nodes until there are none that are new. Every round
but the last one adds a node, so as many rounds as there are nodes are enough.
-/
namespace PegFlow.Graph

set_option autoImplicit false

/-- The successors of a node; a node beyond the graph has none. -/
def successors (edges : List (List Nat)) (i : Nat) : List Nat := edges[i]?.getD []

/-- The successors of `newest` that were not `seen`, each once. -/
def fresh (edges : List (List Nat)) (seen newest : List Nat) : List Nat :=
  ((newest.flatMap (successors edges)).filter fun i => !seen.contains i).eraseDups

/-- The nodes seen after at most `rounds` further rounds. -/
def closure (edges : List (List Nat)) : Nat → List Nat → List Nat → List Nat
  | 0, seen, _ => seen
  | rounds + 1, seen, newest =>
    match fresh edges seen newest with
    | [] => seen
    | i :: rest => closure edges rounds (seen ++ i :: rest) (i :: rest)

/-- The nodes that a path of any length leads to from one of `starts`. -/
def reachable (edges : List (List Nat)) (starts : List Nat) : List Nat :=
  closure edges edges.length starts.eraseDups starts

/-- Whether a path of at least one step leads from a node to itself. -/
def onCycle (edges : List (List Nat)) (i : Nat) : Bool :=
  (reachable edges (successors edges i)).contains i

end PegFlow.Graph
