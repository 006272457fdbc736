import CertExtensions.Asn1.Element

/-!
# Schemas of elements

A `TaggedType` is a type of elements with one tag; a `Schema` is what may stand at one place: a tagged type, a
choice of them, or any element at all. Reading at a place has three outcomes: the value and the bytes behind
it; *absent*, when the tag of the next element is not one of the schema's; or *failed*, when an element of
the right tag is malformed. An optional component takes absence for no value, a required one for a fault.

* `Fields` reads the components inside a constructed element, one after the other;
* `Schema.whole` reads one element that is the whole of the bytes;
* `TaggedType.sequence`, `sequenceOf`, `setOf`, `explicit` and `implicit` build types from types, and
  `Schema.choice` builds a schema from types with different tags.
-/

namespace CertExtensions.Asn1

/-! ### Reading at a place -/

/-- What reading at a place gives. -/
inductive Outcome (α : Type) where
  | found (value : α) (rest : List UInt8)
  | absent (fault : Fault)
  | failed (fault : Fault)
  deriving Repr

/-- What may stand at a place: the content reader of each tag that is possible there. A schema that looks
ahead takes an unreadable identifier for absence; one that does not has then begun to read. -/
structure Schema (α : Type) where
  looksAhead : Bool
  decode? : Tag → Option (Element → Except Fault α)

namespace Schema

variable {α β : Type}

/-- Reads at the start of the bytes. -/
def read (s : Schema α) (bytes : List UInt8) : Outcome α :=
  match readIdentifier bytes with
  | .error fault => if s.looksAhead || bytes.isEmpty then .absent fault else .failed fault
  | .ok (id, rest) =>
    match s.decode? id.tag with
    | none => .absent .invalid
    | some decode =>
      match Element.complete bytes id rest with
      | .error fault => .failed fault
      | .ok (element, rest) =>
        match decode element with
        | .error fault => .failed fault
        | .ok value => .found value rest

/-- Reads one element that is the whole of the bytes. -/
def whole (s : Schema α) (bytes : List UInt8) : Except Fault α :=
  match s.read bytes with
  | .absent fault | .failed fault => .error fault
  | .found value rest => if rest.isEmpty then .ok value else .error .extra

def map (f : α → β) (s : Schema α) : Schema β :=
  ⟨s.looksAhead, fun tag => (s.decode? tag).map fun decode element => (decode element).map f⟩

/-- Reads elements until one is absent; at most `fuel` of them. -/
def collect (s : Schema α) : Nat → List UInt8 → Except Fault (List α × List UInt8)
  | 0, bytes => .ok ([], bytes)
  | fuel + 1, bytes =>
    match s.read bytes with
    | .absent _ => .ok ([], bytes)
    | .failed fault => .error fault
    | .found value rest =>
      match s.collect fuel rest with
      | .error fault => .error fault
      | .ok (values, rest) => .ok (value :: values, rest)

/-- As `collect`, where no element may have an encoding below that of the element before it. -/
def collectAscending (s : Schema α) :
    Nat → List UInt8 → List UInt8 → Except Fault (List α × List UInt8)
  | 0, _, bytes => .ok ([], bytes)
  | fuel + 1, previous, bytes =>
    match s.read bytes with
    | .absent _ => .ok ([], bytes)
    | .failed fault => .error fault
    | .found value rest =>
      let encoding := bytes.take (bytes.length - rest.length)
      if encoding < previous then .error .invalid
      else
        match s.collectAscending fuel encoding rest with
        | .error fault => .error fault
        | .ok (values, rest) => .ok (value :: values, rest)

/-- Any element, as its bytes; the tag that marks the end of contents is none. -/
def any : Schema (List UInt8) :=
  ⟨false, fun tag => if tag = Tag.universal 0 then none else some fun element => .ok element.encoding⟩

end Schema

/-! ### Components -/

/-- Reads components off the bytes that are left of a content. -/
abbrev Fields := StateT (List UInt8) (Except Fault)

namespace Schema

variable {α : Type}

def required (s : Schema α) : Fields α := fun bytes =>
  match s.read bytes with
  | .absent fault | .failed fault => .error fault
  | .found value rest => .ok (value, rest)

def optional (s : Schema α) : Fields (Option α) := fun bytes =>
  match s.read bytes with
  | .absent _ => .ok (none, bytes)
  | .failed fault => .error fault
  | .found value rest => .ok (some value, rest)

/-- As many components of one kind as follow. Each takes at least one byte. -/
def many (s : Schema α) : Fields (List α) := fun bytes =>
  s.collect bytes.length bytes

end Schema

/-- The bytes of all elements that are left, whatever they are. -/
def remaining : Fields (List UInt8) :=
  List.flatten <$> Schema.any.many

/-- Runs the components over a content that they have to use up. -/
def Fields.exhaust {α : Type} (fields : Fields α) (content : List UInt8) : Except Fault α :=
  match fields.run content with
  | .error fault => .error fault
  | .ok (value, rest) => if rest.isEmpty then .ok value else .error .extra

/-! ### Types with one tag -/

/-- A type of elements with one tag, with the reader of its elements. -/
structure TaggedType (α : Type) where
  tag : Tag
  decode : Element → Except Fault α

namespace TaggedType

variable {α β : Type}

def schema (t : TaggedType α) : Schema α :=
  ⟨false, fun tag => if tag = t.tag then some t.decode else none⟩

instance : Coe (TaggedType α) (Schema α) := ⟨schema⟩

def map (f : α → β) (t : TaggedType α) : TaggedType β :=
  ⟨t.tag, fun element => (t.decode element).map f⟩

/-- The type under another tag that takes the place of its own. -/
def implicit (tag : Tag) (t : TaggedType α) : TaggedType α :=
  { t with tag }

/-- A primitive type, given by the reader of its content. -/
def ofContent (tag : Tag) (decode : List UInt8 → Except Fault α) : TaggedType α :=
  ⟨tag, fun element => if element.constructed then .error .invalid else decode element.content⟩

/-- A constructed type, given by the reader of its content. -/
def ofComponents (tag : Tag) (decode : List UInt8 → Except Fault α) : TaggedType α :=
  ⟨tag, fun element => if element.constructed then decode element.content else .error .invalid⟩

/-- A tag around one whole element. -/
def explicit (tag : Tag) (s : Schema α) : TaggedType α :=
  ofComponents tag s.whole

/-- A sequence of the given components. -/
def sequence (fields : Fields α) : TaggedType α :=
  ofComponents .sequence fields.exhaust

/-- A sequence of any number of elements of one kind. -/
def sequenceOf (s : Schema α) : TaggedType (List α) :=
  sequence s.many

/-- A set of any number of elements of one kind, in ascending order of their encodings. -/
def setOf (s : Schema α) : TaggedType (List α) :=
  ofComponents .set (Fields.exhaust fun bytes => s.collectAscending bytes.length [] bytes)

/-- Any content under the tag, as the bytes of the whole element. -/
def undecoded (tag : Tag) : TaggedType (List UInt8) :=
  ⟨tag, fun element => .ok element.encoding⟩

/-- Reads one element of the type that is the whole of the bytes. -/
def whole (t : TaggedType α) (bytes : List UInt8) : Except Fault α :=
  t.schema.whole bytes

def required (t : TaggedType α) : Fields α := t.schema.required

def optional (t : TaggedType α) : Fields (Option α) := t.schema.optional

end TaggedType

/-- One of several types with different tags; the tag tells which. -/
def Schema.choice {α : Type} (types : List (TaggedType α)) : Schema α :=
  ⟨true, fun tag => (types.find? (·.tag = tag)).map (·.decode)⟩

end CertExtensions.Asn1
