import Mathlib.Data.List.TakeWhile
import MediaChain.Listing
import MediaChain.Proofs.Chain.Entry
import MediaChain.Proofs.Listing.Order
import MediaChain.Proofs.Url

/-!
# Paths of entries

The path of an entry is the stored form of the url that was listed, joined with the name of the
entry (`Listing.pathOf_eq`). A stored form has no arguments (`Url.args?_encode`), so a chain that is
built for it states no facts of the origin, and its first stage holds the joined text
(`Url.opensAs`). Names and paths determine each other below one url (`Listing.addEntry_opens`).
-/

namespace MediaChain

open Facts

/-! ## Stored forms have no arguments -/

namespace Url

variable {s : String} {c : Char}

/-- The characters of a stored form are plain or percent signs. -/
theorem mem_encode (h : c ∈ (encode s).toList) :
    ∃ b, c = Char.ofUInt8 b ∧ (isPlain b = true ∨ b = percent) := by
  unfold encode at h
  rw [String.toList_ofList] at h
  obtain ⟨b, hb, rfl⟩ := List.mem_map.mp h
  obtain ⟨_, -, hb⟩ := List.mem_flatMap.mp hb
  exact ⟨b, rfl, mem_escape hb⟩

theorem questionMark_not_mem_encode (s : String) : '?' ∉ (encode s).toList := by
  intro h
  obtain ⟨b, hb, hplain⟩ := mem_encode h
  have hbyte : b = 0x3F := by
    have htoNat := congrArg Char.toNat hb
    rw [← UInt8.toNat_inj]
    exact htoNat.symm
  rw [hbyte] at hplain
  revert hplain
  decide

/-- A url without a question mark is its own base, and has no arguments. -/
theorem of_questionMark_not_mem {url : String} (h : '?' ∉ url.toList) :
    base url = url ∧ args? url = some [] := by
  have hall : ∀ c ∈ url.toList, decide (c ≠ '?') = true := by
    intro c hc
    rw [decide_eq_true_eq]
    rintro rfl
    exact h hc
  constructor
  · unfold base
    rw [List.takeWhile_eq_self_iff.mpr hall, String.ofList_toList]
  · unfold args? params
    rw [List.dropWhile_eq_nil_iff.mpr hall]
    rfl

theorem base_encode (s : String) : base (encode s) = encode s :=
  (of_questionMark_not_mem (questionMark_not_mem_encode s)).1

theorem args?_encode (s : String) : args? (encode s) = some [] :=
  (of_questionMark_not_mem (questionMark_not_mem_encode s)).2

end Url

/-! ## Opening urls without arguments -/

section Opening

variable {ι ε : Type}

/-- The facts that were known before any stage ran. -/
def Facts.Log.ofOrigin (log : Log) : List Fact := log.facts.filter (·.lifetime = .origin)

theorem Facts.Log.Gains.ofOrigin {log log' : Log} (h : log.Gains log') :
    log'.ofOrigin = log.ofOrigin := by
  induction h with
  | refl => rfl
  | tail _ hstep ih =>
    obtain ⟨order, source, key, value, rfl⟩ := hstep
    rw [← ih]
    simp [Log.ofOrigin, Log.append]

/-- Of some stages, tail first, the one in front of all holds a url. -/
def Chain.Heads (text : String) (stages : List (Stage ι ε)) : Prop :=
  ∃ s, stages.getLast? = some s ∧ s.engine.isNone = true ∧ s.outType = .ofUrl text

namespace Chain.Heads

variable {text : String} {s : Stage ι ε} {ss ss' : List (Stage ι ε)}

theorem cons (h : Heads text ss) (s : Stage ι ε) : Heads text (s :: ss) := by
  obtain ⟨first, hlast, hfirst⟩ := h
  refine ⟨first, ?_, hfirst⟩
  rw [List.getLast?_cons, hlast, Option.getD_some]

theorem same (h : Heads text ss) (hsame : List.Forall₂ Stage.Same ss ss') : Heads text ss' := by
  induction hsame with
  | nil => exact h
  | @cons s s' rest rest' hs hrest ih =>
    obtain ⟨first, hlast, hengine, hout⟩ := h
    cases hrest with
    | nil =>
      obtain rfl : s = first := Option.some.inj hlast
      refine ⟨s', rfl, ?_, hs.outType.trans hout⟩
      have hmap := congrArg Option.isNone hs.engine
      simp only [Option.isNone_map] at hmap
      rw [hmap, hengine]
    | cons _ _ =>
      rw [List.getLast?_cons_cons] at hlast
      exact (ih ⟨first, hlast, hengine, hout⟩).cons s'

end Chain.Heads

open Chain (Heads)

namespace Builder

variable {b : Builder ι ε} {goals : List StreamType} {text : String} {f : Front ι ε}

theorem keeps_heads (b : Builder ι ε) (goals : List StreamType) (text : String) :
    b.Keeps goals fun f => Heads text f.stages :=
  .of_same (fun hsame h => h.same hsame) fun _ _ _ h => h.cons _

/-- The first stage of a chain holds what the url names. -/
theorem buildFrom_heads {url : String} {rehash : Bool} {now : Int64} {l : Ledger} {w : World ε}
    {c : Chain ι ε} (hdecode : Url.decode? (Url.base url) = some text)
    (hc : (b.buildFrom goals rehash now url l w).1 = .ok c) : Heads text c.stages := by
  have hstart : ∀ decoded, Url.decode? (Url.base url) = some decoded →
      Heads text (b.start goals url decoded (w.scene l)).stages := fun decoded hdecoded => by
    obtain rfl : decoded = text := Option.some.inj (hdecoded.symm.trans hdecode)
    exact ⟨_, rfl, rfl, rfl⟩
  obtain ⟨scene, hheads, -⟩ := (b.keeps_heads goals text).buildFrom hstart (Prod.ext hc rfl)
  exact hheads

/-- Builds the stages from a text that was read from a url to a goal. -/
def decodeText (b : Builder ι ε) (goals : List StreamType) (text : String) (scene : Scene ε) :
    Except ChainError (List (Stage ι ε)) × Scene ε :=
  match b.negotiate goals (b.settings.stageLimit + 1)
    ⟨[.ofUrl b.settings goals text], scene⟩ with
  | (.error e, f) => (.error e, abandon f)
  | (.ok (), f) => (.ok (recordFormat f).stages, (recordFormat f).scene)

end Builder

end Opening

/-- Whatever the plugins are, a url is opened as a text: building a chain for it states no facts of
the origin, and begins with a stage that holds the text. -/
structure Url.OpensAs (url text : String) : Prop where
  decode : ∀ {ι ε : Type} (b : Builder ι ε) (goals : List StreamType) (scene : Scene ε),
    b.decode goals url scene = b.decodeText goals text scene
  ofOrigin : ∀ {ι ε : Type} (b : Builder ι ε) (goals : List StreamType) (rehash : Bool)
    (now : Int64) (l : Ledger) (w : World ε),
    (b.buildFrom goals rehash now url l w).2.1.log.ofOrigin = l.log.ofOrigin
  heads : ∀ {ι ε : Type} (b : Builder ι ε) (goals : List StreamType) (rehash : Bool)
    (now : Int64) (l : Ledger) (w : World ε) (c : Chain ι ε),
    (b.buildFrom goals rehash now url l w).1 = .ok c → Chain.Heads text c.stages

theorem Url.opensAs {url text : String} (hargs : args? url = some [])
    (hdecode : decode? (base url) = some text) : OpensAs url text := by
  have hseed : ∀ log : Log, Ledger.seedArgs log url = log := by
    intro log
    unfold Ledger.seedArgs
    rw [hargs]
    rfl
  constructor
  · intro ι ε b goals scene
    rw [Builder.decode_eq goals scene hdecode]
    unfold Builder.start
    rw [hseed]
    rfl
  · intro ι ε b goals rehash now l w
    obtain ⟨log, hgains, ⟨e, w', heq⟩ | ⟨c, w', heq, -, -⟩⟩ :=
      b.buildFrom_cases goals rehash now url l w
    all_goals rw [hseed] at hgains
    · rw [heq]
      exact hgains.ofOrigin
    · rw [heq]
      dsimp only
      rw [b.finalize_ledger]
      exact hgains.ofOrigin
  · intro ι ε b goals rehash now l w c hc
    exact Builder.buildFrom_heads hdecode hc

namespace Listing

/-! ## Paths and names -/

/-- A url behind which a name needs no separator. -/
def Closed (base : String) : Prop := base = "" ∨ ∃ front, base = front ++ "/"

/-- A url and a name below it in one text, with one separator between them. -/
def Joined (base name text : String) : Prop :=
  (Closed base ∧ text = base ++ name) ∨ (¬Closed base ∧ text = base ++ "/" ++ name)

theorem closed_iff (base : String) :
    Closed base ↔ base.toList = [] ∨ base.toList.getLast? = some '/' := by
  unfold Closed
  rw [String.toList_eq_nil_iff, List.getLast?_eq_some_iff]
  refine or_congr Iff.rfl ⟨?_, ?_⟩
  · rintro ⟨front, rfl⟩
    exact ⟨front.toList, String.toList_append⟩
  · rintro ⟨front, hfront⟩
    refine ⟨String.ofList front, ?_⟩
    rw [← String.toList_inj, hfront, String.toList_append, String.toList_ofList]
    rfl

theorem joined_separator (base name : String) :
    Joined base name (base ++ separator base ++ name) := by
  unfold separator
  split
  next h =>
    rw [String.append_empty]
    exact .inl ⟨(closed_iff base).mpr h, rfl⟩
  next h => exact .inr ⟨(closed_iff base).not.mpr h, rfl⟩

theorem encode_separator (base : String) : Url.encode (separator base) = separator base := by
  unfold separator
  split
  · decide +kernel
  · decide +kernel

/-- The path of an entry is the stored form of the url joined with the name. -/
theorem pathOf_eq (base name : String) :
    pathOf base name = Url.encode (base ++ separator base ++ name) := by
  rw [Url.encode_append, Url.encode_append, encode_separator]
  rfl

theorem decode?_pathOf (base name : String) :
    Url.decode? (pathOf base name) = some (base ++ separator base ++ name) := by
  rw [pathOf_eq, Url.decode?_encode]

/-- Names below one url have paths of their own. -/
theorem pathOf_injective {base name other : String} (h : pathOf base other = pathOf base name) :
    other = name := by
  have hread := congrArg Url.decode? h
  rw [decode?_pathOf, decode?_pathOf, Option.some.injEq] at hread
  exact String.append_right_inj _ |>.mp hread

/-- The path of an entry that is listed opens the thing that was listed. -/
theorem addEntry_opens (l : Listing) {name : String} (isDir : Bool) (h : '/' ∉ name.toList) :
    ∃ entry path text, l.addEntry name isDir = (true, { l with entries := l.entries ++ [entry] }) ∧
      entry.path? = some path ∧ Joined l.base name text ∧
      Url.args? path = some [] ∧ Url.base path = path ∧ Url.decode? path = some text ∧
      Url.OpensAs path text ∧
      ∀ (l' : Listing) (other : String) (isDir' : Bool) (entry' : Entry), l'.base = l.base →
        l'.addEntry other isDir' = (true, { l' with entries := l'.entries ++ [entry'] }) →
          entry'.path? = some path → other = name := by
  have hargs : Url.args? (pathOf l.base name) = some [] := by
    rw [pathOf_eq, Url.args?_encode]
  have hbase : Url.base (pathOf l.base name) = pathOf l.base name := by
    rw [pathOf_eq, Url.base_encode]
  have hdecode := decode?_pathOf l.base name
  refine ⟨fresh l.base name isDir, pathOf l.base name, l.base ++ separator l.base ++ name,
    addEntry_of_not_mem h, path?_fresh _ _ _, joined_separator _ _, hargs, hbase, hdecode,
    Url.opensAs hargs (hbase.symm ▸ hdecode), ?_⟩
  intro l' other isDir' entry' hl' hadded hpath
  by_cases hother : '/' ∈ other.toList
  · rw [addEntry_of_mem hother] at hadded
    cases hadded
  · rw [addEntry_of_not_mem hother, Prod.mk.injEq, Listing.mk.injEq, List.append_cancel_left_eq,
      List.singleton_inj] at hadded
    obtain ⟨-, -, rfl, -⟩ := hadded
    rw [path?_fresh, hl', Option.some.injEq] at hpath
    exact pathOf_injective hpath

/-- A name in which every character that means something in a url stands for itself. -/
theorem addEntry_opens_oddName :
    ∃ entry, Listing.addEntry (.empty "dir:///music") "50% a+b?c=d&e#f.raw" false =
        (true, ⟨"dir:///music", [entry], 0⟩) ∧
      entry.path? = some "dir:///music/50%25%20a%2Bb%3Fc=d%26e%23f.raw" ∧
      Url.OpensAs "dir:///music/50%25%20a%2Bb%3Fc=d%26e%23f.raw"
        "dir:///music/50% a+b?c=d&e#f.raw" := by
  have hslash : '/' ∉ "50% a+b?c=d&e#f.raw".toList := by decide +kernel
  obtain ⟨entry, path, text, hadded, hpath, -, -, -, hdecode, hopens, -⟩ :=
    addEntry_opens (.empty "dir:///music") false hslash
  have hlisted :
      (Listing.addEntry (.empty "dir:///music") "50% a+b?c=d&e#f.raw" false).2.entries.map
        Entry.path? = [some "dir:///music/50%25%20a%2Bb%3Fc=d%26e%23f.raw"] := by decide +kernel
  rw [hadded] at hlisted
  obtain rfl : path = _ := Option.some.inj (hpath.symm.trans (List.singleton_inj.mp hlisted))
  have htext : Url.decode? "dir:///music/50%25%20a%2Bb%3Fc=d%26e%23f.raw" =
      some "dir:///music/50% a+b?c=d&e#f.raw" := by decide +kernel
  rw [htext, Option.some.injEq] at hdecode
  subst hdecode
  exact ⟨entry, hadded, hpath, hopens⟩

end Listing

end MediaChain
