import WeakSet.Session
import Mathlib.Data.UInt

/-!
# What sets of weak references promise

A client that runs no code of its own within the operations of its sets need not know of shards,
hashes, watchers or notices. All it has to know is the *registry*: which elements have owners, which
sets have names, what is in each set, a dictionary from values to an element and the ticket of its
handle, and of each cursor the set that it goes through and the ticket of what it returned last.
`Registry.Allows` says what each command may answer and what it makes of the registry.

* an element comes into a set exactly if no element of its value is there;
* with the last owner of an element its entries go, and nothing else does;
* what takes entries out takes out those that it names, and a cursor what it returned last;
* what changes a set says whether its dictionary changed, and what looks sees the dictionary. Two sets
  are equal if their dictionaries have the same values, and of these is the hash of a set.

Left open are the choice of fresh elements, sets and tickets, the order of collections, how far a
cursor has come, which sets are of one type, and how many handles of elements that ended there are for
a sweep. Such a handle may still be there for a cursor, which then says that it took something out
(`Registry.Discards`). Of channels, saved tickets and settings nothing is told but that asking for them
changes nothing.
-/

namespace WeakSet

/-- What is in a set: for each value the element and its ticket. -/
abbrev Dict := Value → Option (ElementId × Ticket)

namespace Dict

def empty : Dict := fun _ => none

def insert (m : Dict) (v : Value) (x : ElementId × Ticket) : Dict :=
  fun v' => if v' = v then some x else m v'

/-- The entries of which `keep` holds. -/
def filter (m : Dict) (keep : Value → ElementId → Prop) [∀ v e, Decidable (keep v e)] : Dict :=
  fun v => (m v).filter fun x => keep v x.1

/-- The entries but for that of a ticket. -/
def without (m : Dict) (t? : Option Ticket) : Dict :=
  fun v => (m v).filter fun x => some x.2 ≠ t?

/-- The values of a dictionary, each once, in some order. -/
def Lists (m : Dict) (vs : List Value) : Prop :=
  vs.Nodup ∧ ∀ v, v ∈ vs ↔ (m v).isSome

/-- A dictionary after elements were added: what was there stays, and otherwise the first element
of a value comes in. -/
def Extends (m : Dict) (value : ElementId → Value) (es : List ElementId) (m' : Dict) : Prop :=
  ∀ v, match m v with
    | some x => m' v = some x
    | none => (m' v).map Prod.fst = es.find? fun e => value e = v

end Dict

/-- What a client has to know of elements, sets and cursors. -/
@[ext]
structure Registry where
  owners : Table ElementId := []
  sets : Table SetId := []
  /-- The set that a cursor goes through, and the ticket of what it returned last. -/
  cursors : Table (SetId × Option Ticket) := []
  face : ElementId → Face := fun _ => default
  dict : SetId → Dict := fun _ => Dict.empty

namespace Registry

/-- Nothing yet. -/
def empty : Registry := {}

def value (r : Registry) (e : ElementId) : Value :=
  (r.face e).value

/-- Set `s` has these entries now. -/
def update (r : Registry) (s : SetId) (m : Dict) : Registry :=
  { r with dict := fun s' => if s' = s then m else r.dict s' }

/-- A cursor goes through set `s`, and returned last what has this ticket, if any. -/
def aim (r : Registry) (cursor : String) (s : SetId) (t? : Option Ticket) : Registry :=
  { r with cursors := r.cursors.put cursor (s, t?) }

/-- An element is new: it has no owner and is in no set. -/
def IsNewElement (r : Registry) (e : ElementId) : Prop :=
  (∀ x ∈ r.owners, x.2 ≠ e) ∧ ∀ s v t, r.dict s v ≠ some (e, t)

/-- A set is new: it has no name. -/
def IsNewSet (r : Registry) (s : SetId) : Prop :=
  ∀ x ∈ r.sets, x.2 ≠ s

/-- A ticket is new: no handle has it. -/
def IsNewTicket (r : Registry) (t : Ticket) : Prop :=
  ∀ s v e, r.dict s v ≠ some (e, t)

/-- An owner of an element goes. With the last one the entries of the element go from every set. -/
def disown (r : Registry) (name : String) (e : ElementId) : Registry :=
  let owners := r.owners.erase name
  { r with
    owners := owners
    dict := fun s => (r.dict s).filter fun _ e' => e' = e → owners.any (·.2 = e) }

/-- Owners go, one after the other, until a name has none. -/
def dropOwners (r : Registry) : List String → Reply × Registry
  | [] => (.done, r)
  | o :: os =>
    match r.owners.find? o with
    | none => (.refused .noOwner, r)
    | some e => (r.disown o e).dropOwners os

/-! ## Replies -/

variable (r : Registry) (a : Reply) (r' : Registry)

/-- The command is refused and nothing happens. -/
def Refuses (why : Refusal) : Prop :=
  a = .refused why ∧ r' = r

def WithSet (name : String) (p : SetId → Prop) : Prop :=
  match r.sets.find? name with
  | none => r.Refuses a r' .noSet
  | some s => p s

def WithOwner (name : String) (p : ElementId → Prop) : Prop :=
  match r.owners.find? name with
  | none => r.Refuses a r' .noOwner
  | some e => p e

def WithOwners (names : List String) (p : List ElementId → Prop) : Prop :=
  match Session.findAll r.owners names with
  | none => r.Refuses a r' .noOwner
  | some es => p es

def WithCursor (name : String) (p : SetId → Option Ticket → Prop) : Prop :=
  match r.cursors.find? name with
  | none => r.Refuses a r' .noCursor
  | some x => p x.1 x.2

variable {r a r'}

theorem WithSet.of_none {name : String} {p : SetId → Prop} (h : r.sets.find? name = none)
    (ha : r.Refuses a r' .noSet) : r.WithSet a r' name p := by
  rwa [WithSet, h]

theorem WithSet.of_some {name : String} {p : SetId → Prop} {s : SetId}
    (h : r.sets.find? name = some s) (hp : p s) : r.WithSet a r' name p := by
  rwa [WithSet, h]

theorem WithOwner.of_none {name : String} {p : ElementId → Prop} (h : r.owners.find? name = none)
    (ha : r.Refuses a r' .noOwner) : r.WithOwner a r' name p := by
  rwa [WithOwner, h]

theorem WithOwner.of_some {name : String} {p : ElementId → Prop} {e : ElementId}
    (h : r.owners.find? name = some e) (hp : p e) : r.WithOwner a r' name p := by
  rwa [WithOwner, h]

theorem WithOwners.of_none {names : List String} {p : List ElementId → Prop}
    (h : Session.findAll r.owners names = none) (ha : r.Refuses a r' .noOwner) :
    r.WithOwners a r' names p := by
  rwa [WithOwners, h]

theorem WithOwners.of_some {names : List String} {p : List ElementId → Prop} {es : List ElementId}
    (h : Session.findAll r.owners names = some es) (hp : p es) : r.WithOwners a r' names p := by
  rwa [WithOwners, h]

theorem WithCursor.of_none {name : String} {p : SetId → Option Ticket → Prop}
    (h : r.cursors.find? name = none) (ha : r.Refuses a r' .noCursor) :
    r.WithCursor a r' name p := by
  rwa [WithCursor, h]

theorem WithCursor.of_some {name : String} {p : SetId → Option Ticket → Prop} {s : SetId}
    {t? : Option Ticket} (h : r.cursors.find? name = some (s, t?)) (hp : p s t?) :
    r.WithCursor a r' name p := by
  rwa [WithCursor, h]

variable (r a r')

/-- The value that a lookup asks for. -/
def WithWanted (wanted : Wanted) (p : Value → Prop) : Prop :=
  match wanted with
  | .value v => p v
  | .owner o => r.WithOwner a r' o fun e => p (r.value e)

/-- The values that a bulk lookup asks for. -/
def WithAllWanted (wanted : WantedAll) (p : List Value → Prop) : Prop :=
  match wanted with
  | .values vs => p vs
  | .owners os => r.WithOwners a r' os fun es => p (es.map r.value)

/-- A name for a set is to be given. -/
def IfFree (name : String) (p : Prop) : Prop :=
  if (r.sets.find? name).isSome then r.Refuses a r' .nameTaken else p

/-- The answer is yes or no. -/
def Says (p : Prop) : Prop :=
  ∃ b, a = .flag b ∧ (b = true ↔ p)

/-- Set `s` gets other entries, and the answer is whether they differ. -/
def Becomes (s : SetId) (m : Dict) : Prop :=
  r' = r.update s m ∧ Says a (m ≠ r.dict s)

/-- A new set gets a name. -/
def Founds (name : String) (m : Dict) : Prop :=
  ∃ s, r.IsNewSet s ∧ a = .done ∧ r' = { r.update s m with sets := r.sets.put name s }

/-- An element comes into a set, or another one of the same value is there. -/
def Inserts (s : SetId) (e : ElementId) (yes : Ticket → Reply) (no : Reply) : Prop :=
  match r.dict s (r.value e) with
  | some _ => a = no ∧ r' = r
  | none => ∃ t, r.IsNewTicket t ∧ a = yes t ∧
      r' = r.update s ((r.dict s).insert (r.value e) (e, t))

/-- Elements of a set are shown. -/
def Lists (s : SetId) (fs : List Face) : Prop :=
  a = .elements fs ∧ ∀ f ∈ fs, ∃ e t, r.dict s f.value = some (e, t) ∧ r.face e = f

/-- An element is shown, or only that there is one. It gets an owner if a name is given. -/
def Shows (e : ElementId) : Option String → Prop
  | none => (a = .element (r.face e) ∨ a = .someElement) ∧ r' = r
  | some name =>
    if (r.owners.find? name).isSome then r.Refuses a r' .nameTaken
    else (a = .element (r.face e) ∨ a = .someElement) ∧
      r' = { r with owners := r.owners.put name e }

/-- A cursor comes to an entry of its set, or to the end. -/
def Advances (cursor : String) (keep : Option String) (atEnd : Reply) : Prop :=
  r.WithCursor a r' cursor fun s _ =>
    a = atEnd ∧ r' = r.aim cursor s none ∨
      ∃ v e t, r.dict s v = some (e, t) ∧ (r.aim cursor s (some t)).Shows a r' e keep

/-- The entry that a cursor returned last goes, and the answer is yes if it was there. If it was not
there any more, its handle may still have been. -/
def Discards (cursor : String) : Prop :=
  r.WithCursor a r' cursor fun s t? =>
    r' = (r.update s ((r.dict s).without t?)).aim cursor s none ∧
      ∃ b, a = .flag b ∧ ((r.dict s).without t? ≠ r.dict s → b = true) ∧ (b = true → t?.isSome)

/-- New elements get owners, one after the other, until a name is taken. -/
inductive Creates : Registry → List (String × Value) → Reply → Registry → Prop where
  | nil (r : Registry) : Creates r [] .done r
  | taken {r : Registry} {owner : String} (v : Value) (xs : List (String × Value))
      (h : (r.owners.find? owner).isSome) :
      Creates r ((owner, v) :: xs) (.refused .nameTaken) r
  | cons {r r' : Registry} {owner : String} {v : Value} {e : ElementId}
      {xs : List (String × Value)} {a : Reply}
      (h : r.owners.find? owner = none) (hn : r.IsNewElement e)
      (hc : Creates { r with
        owners := r.owners.put owner e
        face := fun e' => if e' = e then ⟨v, owner⟩ else r.face e' } xs a r') :
      Creates r ((owner, v) :: xs) a r'

/-- What a command may answer, and what it makes of the registry. -/
def Allows (c : Command) : Prop :=
  match c with
  | .new owner v _ _ => Creates r [(owner, v)] a r'
  | .newRange stem n first step =>
    Creates r ((numberedNames stem 0 n).zip (Value.range first n step)) a r'
  | .clone owner target => r.WithOwner a r' owner fun e =>
    if (r.owners.find? target).isSome then r.Refuses a r' .nameTaken
    else a = .done ∧ r' = { r with owners := r.owners.put target e }
  | .drop owners | .dropElsewhere owners => (a, r') = r.dropOwners owners
  | .counts owner => r.WithOwner a r' owner fun e =>
    r' = r ∧ ∃ n, a = .counts (r.owners.countP (·.2 = e)) n
  | .sameElement x y => r.WithOwner a r' x fun e => r.WithOwner a r' y fun e' =>
    r' = r ∧ Says a (e = e')
  | .sameValue x y => r.WithOwner a r' x fun e => r.WithOwner a r' y fun e' =>
    r' = r ∧ Says a (r.value e = r.value e')
  | .forms owner => r.WithOwner a r' owner fun e => r' = r ∧ a = .forms (r.face e)
  | .hashElement owner => r.WithOwner a r' owner fun e => r' = r ∧ a = .hash (valueHash (r.value e))
  | .build name plan => r.IfFree a r' name <|
    match plan with
    | .error why => r.Refuses a r' why
    | .ok plan =>
      plan.channel.isSome ∧ r.Refuses a r' .noChannel ∨
        match plan.settings.fault? with
        | some f => a = .fault f ∧ r' = r
        | none => r.Founds a r' name Dict.empty
  | .newSet name _ => r.IfFree a r' name <| r.Founds a r' name Dict.empty
  | .ofOwners name owners _ _ => r.IfFree a r' name <|
    match owners with
    | .error why => r.Refuses a r' why
    | .ok owners => r.WithOwners a r' owners fun es =>
      ∃ m, Dict.empty.Extends r.value es m ∧ r.Founds a r' name m
  | .dropSet name => r.WithSet a r' name fun s =>
    a = .done ∧ r' = { r with
      sets := r.sets.erase name
      cursors := r.cursors.filter fun x => x.2.1 ≠ s }
  | .sameSet x y => r.WithSet a r' x fun s => r.WithSet a r' y fun s' =>
    r.Refuses a r' .differentTypes ∨
      r' = r ∧ Says a (∀ v, (r.dict s v).isSome ↔ (r.dict s' v).isSome)
  | .hashSet name => r.WithSet a r' name fun s =>
    r' = r ∧ ∃ vs, (r.dict s).Lists vs ∧ a = .hashes [(vs.map valueHash).sum]
  | .insert name owner _ => r.WithSet a r' name fun s => r.WithOwner a r' owner fun e =>
    r.Inserts a r' s e .ticket (.fault .duplicate)
  | .add name owner => r.WithSet a r' name fun s => r.WithOwner a r' owner fun e =>
    r.Inserts a r' s e (fun _ => .flag true) (.flag false)
  | .addAll name owners => r.WithSet a r' name fun s => r.WithOwners a r' owners fun es =>
    ∃ m, (r.dict s).Extends r.value es m ∧ r.Becomes a r' s m
  | .remove name wanted => r.WithSet a r' name fun s => r.WithWanted a r' wanted fun v =>
    r.Becomes a r' s ((r.dict s).filter fun v' _ => v' ≠ v)
  | .removeAll name wanted => r.WithSet a r' name fun s => r.WithAllWanted a r' wanted fun vs =>
    r.Becomes a r' s ((r.dict s).filter fun v _ => v ∉ vs)
  | .retainAll name wanted => r.WithSet a r' name fun s => r.WithAllWanted a r' wanted fun vs =>
    if vs = [] then a = .flag false ∧ r' = r
    else r.Becomes a r' s ((r.dict s).filter fun v _ => v ∈ vs)
  | .retain name modulus remainder _ => r.WithSet a r' name fun s =>
    r.Becomes a r' s ((r.dict s).filter fun _ e => Face.isCongruent modulus remainder (r.face e))
  | .retainBy name keep _ => r.WithSet a r' name fun s =>
    r.Becomes a r' s ((r.dict s).filter fun _ e => keep (r.face e))
  | .clear name => r.WithSet a r' name fun s => a = .done ∧ r' = r.update s Dict.empty
  | .contains name wanted => r.WithSet a r' name fun s => r.WithWanted a r' wanted fun v =>
    r' = r ∧ Says a (r.dict s v).isSome
  | .containsAll name wanted => r.WithSet a r' name fun s => r.WithAllWanted a r' wanted fun vs =>
    r' = r ∧ Says a (vs ≠ [] ∧ ∀ v ∈ vs, (r.dict s v).isSome)
  | .ticketOf name wanted _ => r.WithSet a r' name fun s => r.WithWanted a r' wanted fun v =>
    r' = r ∧ a = match r.dict s v with
      | none => .noTicket
      | some x => .ticket x.2
  | .length name => r.WithSet a r' name fun s =>
    r' = r ∧ ∃ vs, (r.dict s).Lists vs ∧ a = .number vs.length
  | .isEmpty name => r.WithSet a r' name fun s => r' = r ∧ Says a (r.dict s = Dict.empty)
  | .toList name | .iterate name => r.WithSet a r' name fun s =>
    r' = r ∧ ∃ fs, r.Lists a s fs ∧ (r.dict s).Lists (fs.map Face.value)
  | .sweep name => r.WithSet a r' name fun _ => r' = r ∧ ∃ n, a = .number n
  | .newCursor name cursor => r.WithSet a r' name fun s =>
    if (r.cursors.find? cursor).isSome then r.Refuses a r' .nameTaken
    else a = .done ∧ r' = r.aim cursor s none
  | .next cursor keep => r.Advances a r' cursor keep .noElement
  | .nextElement cursor keep => r.Advances a r' cursor keep (.fault .exhausted)
  | .removeCurrent cursor => r.Discards a r' cursor
  | .rest cursor => r.WithCursor a r' cursor fun s _ =>
    r' = r.aim cursor s none ∧ ∃ fs, r.Lists a s fs
  | .dropCursor cursor => r.WithCursor a r' cursor fun _ _ =>
    a = .done ∧ r' = { r with cursors := r.cursors.erase cursor }
  | _ => r' = r

/-- Commands in order, with their answers. -/
inductive Runs : Registry → List (Command × Reply) → Registry → Prop where
  | nil (r : Registry) : Runs r [] r
  | cons {r r' r'' : Registry} {c : Command} {a : Reply} {xs : List (Command × Reply)}
      (h : r.Allows a r' c) (hs : Runs r' xs r'') : Runs r ((c, a) :: xs) r''

end Registry

end WeakSet
