import Mathlib.Logic.Relation
import MediaChain.Proofs.Facts.Log
import MediaChain.Proofs.Library.Session

/-!
# The facts of the origin

What the server knows about a key from before any stage ran (`Facts.Log.origin?`) changes with the
facts of the origin only. A ledger that is reset knows the number of its entry, unless an argument
of the stored url is called like that (`Ledger.origin?_reset`); and so it is with every url whose
arguments it is given afterwards (`Ledger.Used.origin?_id`).
-/

namespace MediaChain

namespace Facts.Log

variable {log log' : Log}

/-- The newest fact about a key from before any stage ran, as the server sees it. -/
def origin? (log : Log) (key : String) : Option Value :=
  log.find? Token.origin 0 serverSource key

theorem append_entry (log : Log) (order : Nat) (source key : String) (value : Value)
    (lifetime : Lifetime) : (log.append order source key value lifetime).2.entry = log.entry := by
  cases lifetime <;> rfl

/-- Everybody sees what the server knew from before any stage ran. -/
theorem find?_seed (log : Log) (key : String) (value : Value) (token : Token) (order : Nat)
    (source key' : String) :
    (log.seed key value).find? token order source key' =
      if key = key' then some value else log.find? token order source key' := by
  unfold find?
  by_cases hkey : key = key' <;> simp [seed, append, Fact.visible, hkey]

/-- Other facts have tokens of their own, so that they are not seen from the origin. -/
theorem origin?_append (log : Log) (order : Nat) (source key : String) (value : Value)
    {lifetime : Lifetime} (h : lifetime ≠ .origin) (key' : String) :
    (log.append order source key value lifetime).2.origin? key' = log.origin? key' := by
  unfold origin? find?
  cases lifetime with
  | origin => exact absurd rfl h
  | persistent | volatile => simp [append, Fact.visible, Token.origin]

theorem origin?_seed (log : Log) (key : String) (value : Value) (key' : String) :
    (log.seed key value).origin? key' = if key = key' then some value else log.origin? key' :=
  log.find?_seed key value Token.origin 0 serverSource key'

/-- Persistent facts were recorded. -/
abbrev Gains : Log → Log → Prop :=
  Relation.ReflTransGen fun log log' => ∃ order source key value,
    log' = (log.append order source key value .persistent).2

theorem Gains.origin? (h : log.Gains log') (key : String) : log'.origin? key = log.origin? key := by
  induction h with
  | refl => rfl
  | tail _ hstep ih =>
    obtain ⟨order, source, key', value, rfl⟩ := hstep
    exact (origin?_append _ order source key' value (by decide) key).trans ih

end Facts.Log

/-- The arguments of a url; there are none if one of them cannot be decoded. -/
def Url.arguments (url : String) : List Url.Arg := (Url.args? url).getD []

namespace Ledger

open Facts

/-! ## Seeding -/

/-- The argument that counts for a key: the last. -/
def lastArg? (args : List Url.Arg) (key : String) : Option Url.Arg :=
  args.reverse.find? (·.key = key)

theorem lastArg?_append (args args' : List Url.Arg) (key : String) :
    lastArg? (args ++ args') key = (lastArg? args' key).or (lastArg? args key) := by
  unfold lastArg?
  rw [List.reverse_append, List.find?_append]

theorem lastArg?_key {args : List Url.Arg} {key : String} {arg : Url.Arg}
    (h : lastArg? args key = some arg) : arg.key = key := by
  unfold lastArg? at h
  simpa using List.find?_some h

theorem seedArgs_entry (log : Log) (url : String) : (seedArgs log url).entry = log.entry :=
  seedArgs_invariant (P := fun log' => log'.entry = log.entry)
    (fun log' _ _ h => (log'.append_entry _ _ _ _ _).trans h) url rfl

/-- What everybody sees of a key for which a url has arguments is the last of them. -/
theorem find?_seedArgs (log : Log) (url : String) (token : Token) (order : Nat)
    (source key : String) :
    (seedArgs log url).find? token order source key =
      ((lastArg? (Url.arguments url) key).map argValue).or
        (log.find? token order source key) := by
  unfold seedArgs
  show ((Url.arguments url).foldl _ log).find? token order source key = _
  induction Url.arguments url generalizing log with
  | nil => rfl
  | cons arg args ih =>
    rw [List.foldl_cons, ih, log.find?_seed, ← List.singleton_append, lastArg?_append,
      Option.map_or, Option.or_assoc]
    by_cases hkey : arg.key = key <;> simp [lastArg?, hkey]

theorem origin?_seedArgs (log : Log) (url key : String) :
    (seedArgs log url).origin? key =
      ((lastArg? (Url.arguments url) key).map argValue).or (log.origin? key) :=
  find?_seedArgs log url Token.origin 0 serverSource key

/-- The arguments of the url that a property states. -/
def urlArgs (stored : Option Value) : List Url.Arg :=
  ((stored.bind Value.text?).map Url.arguments).getD []

theorem origin?_seedProperty_url (log : Log) (value : Value) :
    (seedProperty log Property.urlKey value).origin? Property.idKey =
      ((lastArg? (urlArgs (some value)) Property.idKey).map argValue).or
        (log.origin? Property.idKey) := by
  have hne : Property.urlKey ≠ Property.idKey := by decide
  unfold seedProperty
  rw [if_neg hne]
  cases value with
  | text url =>
    dsimp only
    rw [if_pos rfl, Log.origin?_seed, if_neg hne, origin?_seedArgs]
    rfl
  | int | bytes =>
    dsimp only
    rw [Log.origin?_seed, if_neg hne]
    rfl

/-- The number that is stored with an entry is passed over, and no other property bears it. -/
theorem origin?_seedProperty_of_ne (log : Log) {key : String} (h : key ≠ Property.urlKey)
    (value : Value) :
    (seedProperty log key value).origin? Property.idKey = log.origin? Property.idKey := by
  unfold seedProperty
  split
  next => rfl
  next hne =>
    split
    · rw [Log.origin?_seed, if_neg hne]
    · rw [Log.origin?_seed, if_neg hne]

theorem origin?_seedProperties {properties : List (String × Value)}
    (h : properties.Pairwise (·.1 ≠ ·.1)) (log : Log) :
    (properties.foldl (fun log (key, value) => seedProperty log key value) log).origin?
        Property.idKey =
      ((lastArg? (urlArgs (properties.lookup Property.urlKey)) Property.idKey).map argValue).or
        (log.origin? Property.idKey) := by
  induction properties generalizing log with
  | nil => rfl
  | cons property properties ih =>
    obtain ⟨key, value⟩ := property
    obtain ⟨hfirst, hrest⟩ := List.pairwise_cons.mp h
    rw [List.foldl_cons, ih hrest]
    by_cases hkey : key = Property.urlKey
    · subst hkey
      have hnone : properties.lookup Property.urlKey = none :=
        List.lookup_eq_none_iff.mpr fun p hp => by simpa using hfirst p hp
      rw [hnone, List.lookup_cons_self, origin?_seedProperty_url]
      rfl
    · rw [origin?_seedProperty_of_ne log hkey, List.lookup_cons, beq_false_of_ne (Ne.symm hkey)]

theorem reset_entry (l : Ledger) (entry : EntryId) (properties : List (String × Value)) :
    (l.reset entry properties).log.entry = some entry :=
  reset_invariant (P := fun log => log.entry = some entry)
    (fun log _ _ h => (log.append_entry _ _ _ _ _).trans h) l entry properties rfl

theorem origin?_reset (l : Ledger) (session : Library.Session) (store : Library.Store)
    (entry : EntryId) :
    (l.reset entry (session.properties store entry)).log.origin? Property.idKey =
      ((lastArg? (urlArgs (session.get? store entry Property.urlKey)) Property.idKey).map
        argValue).or (some (.int (Int64.ofNat entry.toNat))) := by
  unfold reset
  dsimp only
  rw [origin?_seedProperties (session.properties_keys store entry), session.lookup_properties,
    Log.origin?_seed, if_pos rfl]

/-! ## Use -/

/-- A ledger that was reset for an entry and has been used since. All `args` became facts of the
origin on the way: first those of the stored url, then those of the urls that chains were built
for. -/
inductive Used (entry : EntryId) : List Url.Arg → Ledger → Prop
  | reset (l : Ledger) (session : Library.Session) (store : Library.Store) :
    Used entry (urlArgs (session.get? store entry Property.urlKey))
      (l.reset entry (session.properties store entry))
  | seed {args : List Url.Arg} {l : Ledger} (url : String) : Used entry args l →
    Used entry (args ++ Url.arguments url) { l with log := seedArgs l.log url }
  | fact {args : List Url.Arg} {l : Ledger} {lifetime : Lifetime} (order : Nat)
    (source key : String) (value : Value) : lifetime ≠ .origin → Used entry args l →
      Used entry args { l with log := (l.log.append order source key value lifetime).2 }
  | react {args : List Url.Arg} {l : Ledger} (lib : Library) (token : Token) :
    Used entry args l → Used entry args (l.react lib token).2.1
  | observe {args : List Url.Arg} {l : Ledger} (observer : Observer) :
    Used entry args l → Used entry args (l.observe observer)

namespace Used

variable {entry : EntryId} {args : List Url.Arg} {l : Ledger}

/-- The ledger stays with its entry. -/
theorem entry_eq (h : Used entry args l) : l.log.entry = some entry := by
  induction h with
  | reset l session store => exact l.reset_entry entry _
  | seed url _ ih => exact (seedArgs_entry _ url).trans ih
  | fact order source key value _ _ ih => exact (Log.append_entry _ _ _ _ _ _).trans ih
  | react _ _ _ ih => exact ih
  | observe _ _ ih => exact ih

/-- The number that is known from the origin is that of the entry, unless an argument is called like
it. -/
theorem origin?_id (h : Used entry args l) :
    l.log.origin? Property.idKey = ((lastArg? args Property.idKey).map argValue).or
      (some (.int (Int64.ofNat entry.toNat))) := by
  induction h with
  | reset l session store => exact l.origin?_reset session store entry
  | seed url _ ih => rw [origin?_seedArgs, ih, lastArg?_append, Option.map_or, Option.or_assoc]
  | fact order source key value hne _ ih => exact (Log.origin?_append _ _ _ _ _ hne _).trans ih
  | react _ _ _ ih => exact ih
  | observe _ _ ih => exact ih

theorem gains {log : Log} (h : Used entry args l) (hgains : l.log.Gains log) :
    Used entry args { l with log } := by
  induction hgains with
  | refl => exact h
  | tail _ hstep ih =>
    obtain ⟨order, source, key, value, rfl⟩ := hstep
    exact .fact order source key value (show Lifetime.persistent ≠ .origin by decide) ih

end Used

end Ledger

end MediaChain
