import WeakSet.Channel
import WeakSet.Hash.Scheme
import WeakSet.Refusal
import WeakSet.Settings

/-!
# Commands and scripts

What a client asks of a world of elements, channels and sets. Elements and listeners carry
*scripts*, lists of commands that run where a program would have code of its own: when an element
is compared, when it ends, when a listener is called and when a predicate is asked. Everything
that a client's code could do from there, re-entering the set included, is therefore a value of
`Script`, and a statement about all scripts is a statement about all such code.

A command is read from outside, where a part may be missing or of the wrong type. Such a command
is `malformed` and says how it is to be refused. Where another refusal takes precedence the part
itself is an `Except Refusal`.
-/

namespace WeakSet

/-- What a panic carries. -/
inductive Panic where
  | text (message : String)
  /-- Something that is no text. -/
  | other
  deriving DecidableEq, Repr, Inhabited

/-- What a set does when a sweep takes out a handle. `σ` is the type of scripts. -/
inductive Listener (σ : Type) where
  /-- Nothing. -/
  | silent
  /-- Report, and run the script of the call: the nth of `calls`, or else `rest`. -/
  | scripted (calls : List σ) (rest : Option σ) (verbose : Bool)
  deriving Repr, Inhabited

namespace Listener

variable {σ : Type}

/-- The script of call `n`. -/
def script? (l : Listener σ) (n : Nat) : Option σ :=
  match l with
  | silent => none
  | scripted calls rest _ => calls[n]? <|> rest

/-- Whether calls are reported at all. -/
def isSilent : Listener σ → Bool
  | silent => true
  | scripted .. => false

/-- Whether reports show the whole record. -/
def isVerbose : Listener σ → Bool
  | silent => false
  | scripted _ _ verbose => verbose

end Listener

/-- How a set is to be built. -/
structure Plan (σ : Type) where
  settings : Settings
  /-- The channel to use instead of a fresh queue. -/
  channel : Option String
  scheme : Hash.Scheme
  listener : Listener σ
  deriving Inhabited

/-- What a lookup asks for: a value, or whatever equals the element of an owner. -/
inductive Wanted where
  | value (v : Value)
  | owner (o : String)
  deriving Repr, Inhabited

/-- What a bulk lookup asks for. -/
inductive WantedAll where
  | values (vs : List Value)
  | owners (os : List String)
  deriving Repr, Inhabited

inductive Command where
  -- elements and their owners
  | new (owner : String) (value : Value) (onDrop onEqual : Option (List Command))
  | newRange (stem : String) (count : Nat) (first step : UInt64)
  | clone (owner target : String)
  | drop (owners : List String)
  | dropElsewhere (owners : List String)
  | counts (owner : String)
  | sameElement (a b : String)
  | sameValue (a b : String)
  | forms (owner : String)
  | hashElement (owner : String)
  -- channels and tickets
  | newChannel (channel : String) (kind : Except Refusal ChannelKind)
  | openChannel (channel : String)
  | closeChannel (channel : String)
  | channelLength (channel : String)
  | drainChannel (channel : String)
  | forgetChannel (channel : String)
  | enqueue (channel : String) (tickets : List String)
  | sameTicket (a b : String)
  | showTicket (ticket : String)
  -- sets as wholes
  | constants
  | validate (settings : Settings)
  | build (set : String) (plan : Except Refusal (Plan (List Command)))
  | newSet (set : String) (listener : Listener (List Command))
  | ofOwners (set : String) (owners : Except Refusal (List String)) (sized : Bool)
      (listener : Listener (List Command))
  | dropSet (set : String)
  | sameSet (a b : String)
  | settings (set : String)
  | describe (set : String) (spread : Bool)
  | hashSet (set : String)
  -- membership
  | insert (set owner : String) (save : Option String)
  | add (set owner : String)
  | addAll (set : String) (owners : List String)
  | contains (set : String) (wanted : Wanted)
  | remove (set : String) (wanted : Wanted)
  | ticketOf (set : String) (wanted : Wanted) (save : Option String)
  | containsAll (set : String) (wanted : WantedAll)
  | removeAll (set : String) (wanted : WantedAll)
  | retainAll (set : String) (wanted : WantedAll)
  | retain (set : String) (modulus remainder : Nat) (on : List (String × List Command))
  | retainBy (set : String) (keep : Face → Bool) (on : List (String × List Command))
  | length (set : String)
  | isEmpty (set : String)
  | sweep (set : String)
  | clear (set : String)
  | toList (set : String)
  | iterate (set : String)
  -- cursors
  | newCursor (set cursor : String)
  | next (cursor : String) (keep : Option String)
  | nextElement (cursor : String) (keep : Option String)
  | removeCurrent (cursor : String)
  | rest (cursor : String)
  | dropCursor (cursor : String)
  -- from within scripts
  | keep (owner : String)
  | panic (set : Option String) (payload : Panic)
  -- several threads at once
  | addTogether (set : String) (value : Value) (threads : Nat)
  | mixTogether (threads count concurrency : Nat)
  -- what cannot be carried out, after a look for the set that it names
  | malformed (name : String) (set : Option String) (why : Refusal)
  deriving Inhabited

/-- What a client's code does, one command after the other. -/
abbrev Script := List Command

/-- Where a script runs. -/
inductive Role where
  /-- While an element that ended is destroyed. -/
  | destructor
  /-- While two elements are compared. -/
  | equality
  /-- While a listener is called. -/
  | listener
  /-- While a predicate is asked. -/
  | predicate
  deriving DecidableEq, Repr, Inhabited

namespace Command

/-- The word for a command. -/
def name : Command → String
  | new .. => "new"
  | newRange .. => "new_range"
  | clone .. => "clone"
  | drop .. => "drop"
  | dropElsewhere .. => "drop_thread"
  | counts .. => "counts"
  | sameElement .. => "ptr_eq"
  | sameValue .. => "val_eq"
  | forms .. => "fmt"
  | hashElement .. => "hash_el"
  | newChannel .. => "chan"
  | openChannel .. => "ch_open"
  | closeChannel .. => "ch_close"
  | channelLength .. => "ch_len"
  | drainChannel .. => "ch_drain"
  | forgetChannel .. => "ch_drop"
  | enqueue .. => "enqueue"
  | sameTicket .. => "id_eq"
  | showTicket .. => "id_show"
  | constants => "consts"
  | validate .. => "validate"
  | build .. => "build"
  | newSet .. => "new_set"
  | ofOwners .. => "from"
  | dropSet .. => "drop_set"
  | sameSet .. => "eq"
  | settings .. => "config"
  | describe .. => "debug"
  | hashSet .. => "hash"
  | insert .. => "insert"
  | add .. => "add"
  | addAll .. => "add_all"
  | contains .. => "contains"
  | remove .. => "remove"
  | ticketOf .. => "id_of"
  | containsAll .. => "contains_all"
  | removeAll .. => "remove_all"
  | retainAll .. => "retain_all"
  | retain .. => "retain"
  | retainBy .. => "retain"
  | length .. => "len"
  | isEmpty .. => "is_empty"
  | sweep .. => "sweep"
  | clear .. => "clear"
  | toList .. => "to_vec"
  | iterate .. => "into_iter"
  | newCursor .. => "iter"
  | next .. => "next"
  | nextElement .. => "next_element"
  | removeCurrent .. => "remove_current"
  | rest .. => "iter_rest"
  | dropCursor .. => "iter_drop"
  | keep .. => "keep"
  | panic .. => "panic"
  | addTogether .. => "par_add"
  | mixTogether .. => "par_mix"
  | malformed name .. => name

end Command

end WeakSet
