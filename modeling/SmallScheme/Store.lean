import SmallScheme.Value

/-!
The store: frames of bindings, each linked to the frame around it, and how many objects there are. A
frame keeps its names in order of first definition.
-/

set_option autoImplicit false
set_option relaxedAutoImplicit false

namespace SmallScheme

/-- Names with their values, in order of first definition. -/
abbrev Bindings := List (String × Value)

namespace Bindings

def get? (name : String) : Bindings → Option Value
  | [] => none
  | (n, v) :: rest => if n = name then some v else get? name rest

/-- Bind a name: in its place if it is there, otherwise at the end. -/
def put (name : String) (value : Value) : Bindings → Bindings
  | [] => [(name, value)]
  | (n, v) :: rest => if n = name then (n, value) :: rest else (n, v) :: put name value rest

def names (bindings : Bindings) : List String :=
  bindings.map Prod.fst

/-- Bind one name after the other; the last value of a name counts. -/
def ofList (pairs : List (String × Value)) : Bindings :=
  pairs.foldl (fun bindings pair => bindings.put pair.1 pair.2) []

end Bindings

structure Frame where
  bindings : Bindings
  outer : Option FrameId

structure Store where
  frames : Array Frame
  /-- How many objects stand in the text read so far. -/
  written : Nat
  /-- How many objects have been made. -/
  made : Nat

namespace Store

def empty : Store :=
  ⟨#[], 0, 0⟩

/-- The bindings of a frame; a frame that does not exist has none. -/
def bindings (s : Store) (frame : FrameId) : Bindings :=
  match s.frames[frame]? with
  | some f => f.bindings
  | none => []

def outer? (s : Store) (frame : FrameId) : Option FrameId :=
  s.frames[frame]?.bind Frame.outer

/-- The frame and those around it, at most so many. -/
def chainWithin (s : Store) : Nat → FrameId → List FrameId
  | 0, _ => []
  | n + 1, frame =>
      frame :: match s.outer? frame with
        | none => []
        | some outer => s.chainWithin n outer

/-- The frame and those around it, from the inside out. Outer frames are older, so no chain is
longer than the number of its first frame says. -/
def chain (s : Store) (frame : FrameId) : List FrameId :=
  s.chainWithin (frame + 1) frame

def binds (s : Store) (name : String) (frame : FrameId) : Bool :=
  ((s.bindings frame).get? name).isSome

def owner? (s : Store) (frame : FrameId) (name : String) : Option FrameId :=
  (s.chain frame).find? (s.binds name)

def lookup? (s : Store) (frame : FrameId) (name : String) : Option Value :=
  (s.owner? frame name).bind fun owner => (s.bindings owner).get? name

def define (s : Store) (frame : FrameId) (name : String) (value : Value) : Store :=
  { s with
    frames := s.frames.modify frame fun f => { f with bindings := f.bindings.put name value } }

def addFrame (s : Store) (bindings : Bindings) (outer : Option FrameId) : FrameId × Store :=
  (s.frames.size, { s with frames := s.frames.push ⟨bindings, outer⟩ })

def make (s : Store) : Identity × Store :=
  (.made s.made, { s with made := s.made + 1 })

/-- How messages show a frame: the number of frames around it and of its own names. -/
def describe (s : Store) (frame : FrameId) : String :=
  s!"<Env depth={(s.chain frame).length - 1} names={(s.bindings frame).length}>"

end Store

end SmallScheme
