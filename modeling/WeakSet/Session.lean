import WeakSet.Comparison
import WeakSet.Construction
import WeakSet.Crew
import WeakSet.Cursor
import WeakSet.Text

/-!
# Sessions

What each command does. A client knows elements by their owners, and channels, sets, cursors and
tickets by names. While a command uses an owner it holds a reference of its own to the element, so
a script that drops the owner meanwhile does not end the element before the command is over.

Scripts run commands too, up to twelve deep: `runner n` runs scripts whose commands may have
scripts of their own run by `runner (n - 1)`, and `runner 0` refuses every command. A panic of a
command is its reply and goes no further. Only the command `panic` panics out of a script.
-/

namespace WeakSet

open Act

namespace Session

def refuse (r : Refusal) : Act Reply :=
  return .refused r

/-! ## Names -/

/-- The things under several names, unless one of them names nothing. -/
def findAll {α : Type} (t : Table α) (names : List String) : Option (List α) :=
  names.mapM t.find?

/-- Use the elements of several owners. -/
def withOwners (run : Runner) (names : List String) (body : List ElementId → Act Reply) :
    Act Reply := do
  match findAll (← get).owners names with
  | none => refuse .noOwner
  | some es => borrowing run es (body es)

/-- Use the element of an owner. -/
def withOwner (run : Runner) (name : String) (body : ElementId → Act Reply) : Act Reply := do
  match (← get).owners.find? name with
  | none => refuse .noOwner
  | some e => borrowing run [e] (body e)

/-- Use a set. -/
def withSet (name : String) (body : SetId → Act Reply) : Act Reply := do
  match (← get).setNames.find? name with
  | none => refuse .noSet
  | some s => body s

/-- Use a channel. -/
def withChannel (name : String) (body : ChannelId → Act Reply) : Act Reply := do
  match (← get).channelNames.find? name with
  | none => refuse .noChannel
  | some c => body c

/-- Use a saved ticket. -/
def withTicket (name : String) (body : Ticket → Act Reply) : Act Reply := do
  match (← get).tickets.find? name with
  | none => refuse .noTicket
  | some t => body t

/-- Let a cursor make a step, and reply with what it came to. Nobody else can use the cursor until
the reply is complete, and it is back afterwards however the step ends. -/
def withCursor {α : Type} (name : String) (step : Cursor → Act (Cursor.Step α))
    (body : Cursor → α → Act Reply) : Act Reply := do
  match (← get).cursors.find? name with
  | none => refuse .noCursor
  | some c =>
    change (·.takeCursor name c)
    let x ← step c
    let reply ← attempt do body x.cursor (← settle x.outcome)
    change (·.returnCursor name x.cursor)
    settle reply

/-- Make an element the property of a new owner; whether the name was free. -/
def ownAs (name : String) (e : ElementId) : Act Bool :=
  update fun w =>
    match w.owners.find? name with
    | some _ => (false, w)
    | none => (true, { w with owners := w.owners.put name e })

/-- Save a ticket, if a name is given for it. -/
def save (name : Option String) (t : Ticket) : Act Unit :=
  match name with
  | none => pure ()
  | some name => change fun w => { w with tickets := w.tickets.put name t }

/-- Use what a lookup asks for. -/
def withWanted (run : Runner) (wanted : Wanted) (body : Query → Act Reply) : Act Reply :=
  match wanted with
  | .value v => body (.value v)
  | .owner o => withOwner run o fun e => body (.element e)

/-- Use what a bulk lookup asks for. -/
def withAllWanted (run : Runner) (wanted : WantedAll) (body : List Query → Act Reply) :
    Act Reply :=
  match wanted with
  | .values vs => body (vs.map .value)
  | .owners os => withOwners run os fun es => body (es.map .element)

/-! ## Elements -/

/-- Make an element with an owner. -/
def newElement (owner : String) (v : Value) (onDrop onEqual : Option Script) : Act Reply := do
  match (← get).owners.find? owner with
  | some _ => refuse .nameTaken
  | none =>
    let e ← update (·.create ⟨⟨v, owner⟩, onDrop, onEqual⟩)
    discard (ownAs owner e)
    return .done

/-- Make elements with owners, until a name is taken. -/
def newElements : List (String × Value) → Act Reply
  | [] => return .done
  | (owner, v) :: rest => do
    match ← newElement owner v none none with
    | .done => newElements rest
    | r => return r

/-- Drop owners, until a name has none. -/
def dropOwners (run : Runner) : List String → Act Reply
  | [] => return .done
  | o :: os => do
    match (← get).owners.find? o with
    | none => refuse .noOwner
    | some e =>
      change fun w => { w with owners := w.owners.erase o }
      release run e
      dropOwners run os

/-- Take owners away, until a name has none; their elements, and whether every name had one. -/
def takeOwners : List String → Act (List ElementId × Bool)
  | [] => return ([], true)
  | o :: os => do
    match (← get).owners.find? o with
    | none => return ([], false)
    | some e =>
      change fun w => { w with owners := w.owners.erase o }
      let (es, complete) ← takeOwners os
      return (e :: es, complete)

/-- Take owners away, until a name has none, and then let go of their elements. -/
def dropOwnersTogether (run : Runner) (os : List String) : Act Reply := do
  let (es, complete) ← takeOwners os
  releaseAll run es
  if complete then return .done else refuse .noOwner

/-- Put saved tickets into a channel, until a name has none. -/
def enqueueSaved (c : ChannelId) : List String → Act Reply
  | [] => return .done
  | name :: names =>
    withTicket name fun t => do
      change (·.post c t)
      enqueueSaved c names

/-- Reply with elements that are held, and let go of them. -/
def showElements (run : Runner) (s : SetId) (es : List ElementId) : Act Reply :=
  holding run es <| look fun w =>
    let faces := es.map w.face
    .elements (if (w.collection s).isUnordered then faces.mergeSort Face.le else faces)

/-- Reply with the element that a cursor returned. It gets a new owner if a name is given for it,
and is let go of otherwise. -/
def showNext (run : Runner) (keep : Option String) (s : SetId) (e : ElementId) : Act Reply := do
  let reply ← look fun w =>
    if (w.collection s).isUnordered then .someElement else .element (w.face e)
  match keep with
  | none =>
    release run e
    return reply
  | some name =>
    if ← ownAs name e then
      return reply
    release run e
    refuse .nameTaken

/-- Give the element of the record that is being reported an owner. -/
def keepRecord (run : Runner) (owner : String) : Act Reply := do
  let inHand ← update fun w =>
    match w.hands with
    | some r :: hands => (some r, { w with hands := none :: hands })
    | _ => (none, w)
  match inHand with
  | none => refuse .nothingInHand
  | some r =>
    match r.last with
    | none => return .flag false
    | some e =>
      if ← ownAs owner e then
        return .flag true
      release run e
      refuse .nameTaken

/-! ## Sets -/

/-- Whether a name for a set is free. -/
def isFreeForSet (name : String) : Act Bool :=
  look fun w => (w.setNames.find? name).isNone

/-- Give a set a name. -/
def nameSet (name : String) (s : SetId) : Act Reply := do
  change (·.nameSet name s)
  return .done

/-- Build a set as planned, with the channel given or a fresh queue. -/
def buildWith (name : String) (plan : Plan Script) (channel : Option ChannelId) : Act Reply := do
  match plan.settings.fault? with
  | some f => return .fault f
  | none =>
    nameSet name (← construct ⟨name, plan.settings, plan.scheme, true, plan.listener⟩ channel)

/-- Build a set as planned. -/
def build (name : String) (plan : Plan Script) : Act Reply :=
  match plan.channel with
  | none => buildWith name plan none
  | some c => withChannel c fun c => buildWith name plan (some c)

/-- Make a set of the elements of some owners. -/
def ofOwners (run : Runner) (name : String) (owners : List String) (sized : Bool)
    (listener : Listener Script) : Act Reply :=
  withOwners run owners fun es => do
    let capacity := if sized then min es.length maxCapacity else 0
    let listener :=
      if !sized && listener.isSilent then .scripted [] none false else listener
    let blueprint : Blueprint :=
      ⟨name, { Settings.standard with capacity := capacity }, .keyed, false, listener⟩
    nameSet name (← constructOf run blueprint es)

/-- Drop a set, its cursors first. -/
def dropSet (name : String) : Act Reply :=
  withSet name fun s => do
    change fun w => { w with cursors := w.cursors.filter fun e => e.2.set ≠ s }
    destroy s
    change fun w => { w with setNames := w.setNames.erase name }
    return .done

/-- What the predicate of a command `retain` does and answers. -/
def predicate (run : Runner) (s : SetId) (keep : Face → Bool) (on : List (String × Script))
    (e : ElementId) : Act Bool := do
  let f ← look (·.face e)
  unless ← look fun w => (w.collection s).isUnordered do
    note (.considered f)
  match on.lookup f.tag with
  | none => pure ()
  | some script => run .predicate script
  return keep f

/-- Use a gated channel. -/
def withGated (name : String) (f : Channel → Channel) : Act Reply :=
  withChannel name fun c => do
    match (← get).channels[c]? with
    | none => refuse .noChannel
    | some ch =>
      match ch.kind with
      | .queue => refuse .notGated
      | .gated =>
        change fun w => { w with channels := w.channels.modify c f }
        return .done

/-- How many threads there are when some are asked for: one to eight. -/
def crewSize (threads : Nat) : Nat :=
  max 1 (min 8 threads)

/-! ## Commands -/

/-- Carry out a command. -/
def perform (run : Runner) (inScript : Bool) : Command → Act Reply
  | .new owner v onDrop onEqual => newElement owner v onDrop onEqual
  | .newRange stem n first step =>
    newElements ((numberedNames stem 0 n).zip (Value.range first n step))
  | .clone owner target =>
    withOwner run owner fun e => do
      if ← ownAs target e then
        change (·.acquire e)
        return .done
      refuse .nameTaken
  | .drop owners => dropOwners run owners
  | .dropElsewhere owners => dropOwnersTogether run owners
  | .counts owner => do
    match (← get).owners.find? owner with
    | none => refuse .noOwner
    | some e => look fun w => .counts (w.strong e) (w.watchers e).length
  | .sameElement a b =>
    withOwner run a fun x => withOwner run b fun y => return .flag (x = y)
  | .sameValue a b =>
    withOwner run a fun x => withOwner run b fun y => .flag <$> sameElements run x y
  | .forms owner => withOwner run owner fun e => look fun w => .forms (w.face e)
  | .hashElement owner =>
    withOwner run owner fun e => look fun w => .hash (valueHash (w.value e))
  | .newChannel name kind => do
    match (← get).channelNames.find? name with
    | some _ => refuse .nameTaken
    | none =>
      match kind with
      | .error why => refuse why
      | .ok kind =>
        let c ← update (·.newChannel kind)
        change fun w => { w with channelNames := w.channelNames.put name c }
        return .done
  | .openChannel name => withGated name fun ch => { ch with isOpen := true }
  | .closeChannel name => withGated name fun ch => { ch with isOpen := false }
  | .channelLength name =>
    withChannel name fun c => look fun w => .queued ((w.channels.getD c default).pending.length)
  | .drainChannel name =>
    withChannel name fun c => do
      note (.drained c)
      .tickets <$> update (·.drain c)
  | .forgetChannel name =>
    withChannel name fun _ => do
      change fun w => { w with channelNames := w.channelNames.erase name }
      return .done
  | .enqueue name tickets => withChannel name fun c => enqueueSaved c tickets
  | .sameTicket a b => withTicket a fun x => withTicket b fun y => return .flag (x = y)
  | .showTicket name => withTicket name fun t => return .ticket t
  | .constants => return .constants
  | .validate settings =>
    match settings.fault? with
    | some f => return .fault f
    | none => return .valid
  | .build name plan => do
    if ← isFreeForSet name then
      match plan with
      | .error why => refuse why
      | .ok plan => build name plan
    else
      refuse .nameTaken
  | .newSet name listener => do
    if ← isFreeForSet name then
      nameSet name (← construct ⟨name, .standard, .keyed, false, listener⟩ none)
    else
      refuse .nameTaken
  | .ofOwners name owners sized listener => do
    if ← isFreeForSet name then
      match owners with
      | .error why => refuse why
      | .ok owners => ofOwners run name owners sized listener
    else
      refuse .nameTaken
  | .dropSet name => if inScript then refuse .inScript else dropSet name
  | .sameSet a b =>
    withSet a fun x => withSet b fun y => do
      if (← look (·.collection x)).isBuilt = (← look (·.collection y)).isBuilt then
        .flag <$> sameSets run x y
      else
        refuse .differentTypes
  | .settings name => withSet name fun s => look fun w => .settings (w.collection s).settings
  | .describe name spread =>
    withSet name fun s => do
      let n ← count s
      look fun w => .text (Text.set spread n (w.shardCount s) (w.collection s).settings.kind)
  | .hashSet name => withSet name fun s => return .hashes [← hashOf run s]
  | .insert name owner saveAs =>
    withSet name fun s => withOwner run owner fun e => do
      match ← insert run s e with
      | none => return .fault .duplicate
      | some t =>
        save saveAs t
        return .ticket t
  | .add name owner => withSet name fun s => withOwner run owner fun e => .flag <$> add run s e
  | .addAll name owners =>
    withSet name fun s => withOwners run owners fun es => .flag <$> addAll run s es
  | .contains name wanted =>
    withSet name fun s => withWanted run wanted fun q => .flag <$> contains run s q
  | .remove name wanted =>
    withSet name fun s => withWanted run wanted fun q => .flag <$> remove run s q
  | .ticketOf name wanted saveAs =>
    withSet name fun s => withWanted run wanted fun q => do
      match ← ticketOf run s q with
      | none => return .noTicket
      | some t =>
        save saveAs t
        return .ticket t
  | .containsAll name wanted =>
    withSet name fun s => withAllWanted run wanted fun qs => .flag <$> containsAll run s qs
  | .removeAll name wanted =>
    withSet name fun s => withAllWanted run wanted fun qs => .flag <$> removeAll run s qs
  | .retainAll name wanted =>
    withSet name fun s => withAllWanted run wanted fun qs => .flag <$> retainAll run s qs
  | .retain name modulus remainder on =>
    withSet name fun s =>
      .flag <$> retain run s (predicate run s (Face.isCongruent modulus remainder) on)
  | .retainBy name keep on =>
    withSet name fun s => .flag <$> retain run s (predicate run s keep on)
  | .length name => withSet name fun s => .number <$> length run s
  | .isEmpty name => withSet name fun s => return .flag ((← length run s) = 0)
  | .sweep name => withSet name fun s => .number <$> sweep run s
  | .clear name =>
    withSet name fun s => do
      clear s
      return .done
  | .toList name => withSet name fun s => do showElements run s (← toList run s)
  | .iterate name => withSet name fun s => do showElements run s (← toList run s)
  | .newCursor name cursor =>
    withSet name fun s => do
      match (← get).cursors.find? cursor with
      | some _ => refuse .nameTaken
      | none =>
        let c ← Cursor.start run s
        change (·.putCursor cursor c)
        return .done
  | .next cursor keep =>
    withCursor cursor (·.next run) fun c e? =>
      match e? with
      | none => return .noElement
      | some e => showNext run keep c.set e
  | .nextElement cursor keep =>
    withCursor cursor (·.next run) fun c e? =>
      match e? with
      | none => return .fault .exhausted
      | some e => showNext run keep c.set e
  | .removeCurrent cursor => withCursor cursor (·.removeCurrent) fun _ b => return .flag b
  | .rest cursor => withCursor cursor (·.rest run) fun c es => showElements run c.set es
  | .dropCursor cursor => do
    match (← get).cursors.find? cursor with
    | none => refuse .noCursor
    | some c =>
      change (·.dropCursor cursor c)
      return .done
  | .keep owner => keepRecord run owner
  | .addTogether name v threads =>
    withSet name fun s => do
      if (← look (·.collection s)).isBuilt then
        .addedTogether <$> asCrew (addTogether run s v (crewSize threads))
      else
        refuse .differentTypes
  | .mixTogether threads n concurrency => do
    let settings := { Settings.standard with concurrency := concurrency }
    match settings.fault? with
    | some f => return .fault f
    | none => .mixedTogether <$> asCrew (mixTogether run settings (crewSize threads) n)
  | .panic none _ => refuse .noSet
  | .panic (some name) _ => withSet name fun _ => refuse .unknownCommand
  | .malformed _ none why => refuse why
  | .malformed _ (some name) why => withSet name fun _ => refuse why

/-! ## Scripts -/

/-- The panic that a command is, in a script that may panic. -/
def panicOf? (role : Role) : Command → Option Panic
  | .panic _ p => if role = .destructor then none else some p
  | _ => none

/-- The reply to a command, a panic included. -/
def replyOf : Except Panic Reply → Reply
  | .ok r => r
  | .error p => .panicked p

/-- Run a script, each command by `carryOut`. -/
def play (carryOut : Command → Act Reply) (role : Role) : Script → Act Unit
  | [] => pure ()
  | c :: cs => do
    match panicOf? role c with
    | some p => throw p
    | none =>
      note (.answered c.name (replyOf (← attempt (carryOut c))))
      play carryOut role cs

/-- Runs scripts `n` deep. -/
def runner : Nat → Runner
  | 0 => play fun _ => refuse .tooDeep
  | n + 1 => play (perform (runner n) true)

/-- How deep scripts nest. -/
def maxDepth : Nat := 12

/-- Carry out a command of the client's, with scripts up to `depth` deep; its reply, and the world
after it. -/
def carryOutWithin (depth : Nat) (w : World) (c : Command) : Reply × World :=
  let (r, after) := (perform (runner depth) false c).exec w
  (replyOf r, after)

/-- Carry out a command of the client's. -/
def carryOut (w : World) (c : Command) : Reply × World :=
  carryOutWithin maxDepth w c

/-- Carry out commands in order, with scripts up to `depth` deep. -/
def carryOutAll (depth : Nat) (w : World) (cs : List Command) : World :=
  cs.foldl (fun w c => (carryOutWithin depth w c).2) w

end Session

end WeakSet
