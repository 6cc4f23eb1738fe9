import MediaChain.Proofs.Listing.Paths

/-!
# Targets of links

The target of a link is the stored form of a url and, behind a question mark, the arguments as they
were given, with ampersands between them. No question mark is left in a stored form, so a target is
cut where it was joined (`Url.split_target`), and each argument states what its own text does
(`Url.Arg.Written`). So a link opens the url it was made for, with the arguments it was given
(`Listing.addLink_target`).
-/

namespace MediaChain

namespace Url

variable {mark : Char} {front : List Char}

/-! ## Cutting texts -/

/-- A text is cut at the first mark in it. -/
theorem takeWhile_cut (h : mark ∉ front) (behind : List Char) :
    (front ++ mark :: behind).takeWhile (· ≠ mark) = front := by
  have hall : ∀ c ∈ front, decide (c ≠ mark) = true := fun c hc =>
    decide_eq_true fun heq => h (heq ▸ hc)
  rw [List.takeWhile_append_of_pos hall]
  simp

theorem dropWhile_cut (h : mark ∉ front) (behind : List Char) :
    (front ++ mark :: behind).dropWhile (· ≠ mark) = mark :: behind := by
  have hall : ∀ c ∈ front, decide (c ≠ mark) = true := fun c hc =>
    decide_eq_true fun heq => h (heq ▸ hc)
  rw [List.dropWhile_append_of_pos hall]
  simp

theorem dropWhile_of_not_mem (h : mark ∉ front) : front.dropWhile (· ≠ mark) = [] :=
  List.dropWhile_eq_nil_iff.mpr fun _ hc => decide_eq_true fun heq => h (heq ▸ hc)

/-! ## Written arguments -/

/-- What a written argument states: a key and a value, decoded, if it has an equals sign, of which
the first one counts, and a bare key otherwise. -/
inductive Arg.Written : String → Arg → Prop
  | pair {key value k v : String} : '=' ∉ key.toList → decode? key = some k →
    decode? value = some v → Written (key ++ "=" ++ value) (.pair k v)
  | flag {key k : String} : '=' ∉ key.toList → decode? key = some k → Written key (.flag k)

/-- Reading an argument is taking it for what it states. -/
theorem Arg.read?_eq_some_iff {text : String} {arg : Arg} :
    Arg.read? text.toList = some arg ↔ Written text arg := by
  constructor
  · intro h
    have hcut := List.takeWhile_append_dropWhile (p := (· ≠ '=')) (l := text.toList)
    have hkey : '=' ∉ text.toList.takeWhile (· ≠ '=') := by
      intro hmem
      have hne := List.mem_takeWhile_imp hmem
      simp at hne
    unfold Arg.read? at h
    split at h
    next hnil =>
      obtain ⟨k, hk, rfl⟩ := Option.map_eq_some_iff.mp h
      rw [hnil, List.append_nil] at hcut
      rw [String.ofList_toList] at hk
      exact .flag (hcut ▸ hkey) hk
    next c value hbehind =>
      have hmark : c = '=' := by
        have hhead := List.head?_dropWhile_not (· ≠ '=') text.toList
        rw [hbehind] at hhead
        simpa using hhead
      split at h
      next k v hk hv =>
        obtain rfl := Option.some.inj h
        have htext : text = String.ofList (text.toList.takeWhile (· ≠ '=')) ++ "=" ++
            String.ofList value := by
          rw [← String.toList_inj, String.toList_append, String.toList_append,
            String.toList_ofList, String.toList_ofList]
          conv => lhs; rw [← hcut, hbehind, hmark]
          simp
        rw [htext]
        exact .pair (by rwa [String.toList_ofList]) hk hv
      next => cases h
  · intro h
    unfold Arg.read?
    cases h with
    | @pair key value k v hkey hk hv =>
      have htext : (key ++ "=" ++ value).toList = key.toList ++ '=' :: value.toList := by
        simp [String.toList_append]
      rw [htext, dropWhile_cut hkey, takeWhile_cut hkey]
      simp only [String.ofList_toList, hk, hv]
    | @flag key k hkey hk =>
      rw [dropWhile_of_not_mem hkey]
      simp only [String.ofList_toList, hk, Option.map_some]

theorem exists_args {texts : List String} (h : ∀ text ∈ texts, ∃ arg, Arg.Written text arg) :
    ∃ args, List.Forall₂ Arg.Written texts args := by
  induction texts with
  | nil => exact ⟨[], .nil⟩
  | cons text texts ih =>
    rw [List.forall_mem_cons] at h
    obtain ⟨arg, harg⟩ := h.1
    obtain ⟨args, hargs⟩ := ih h.2
    exact ⟨arg :: args, .cons harg hargs⟩

/-- Written arguments that stand apart are read one by one. -/
theorem mapM_read? {texts : List String} {args : List Arg}
    (h : List.Forall₂ Arg.Written texts args) :
    (texts.map String.toList).mapM Arg.read? = some args := by
  induction h with
  | nil => rfl
  | cons hfirst _ ih =>
    rw [List.map_cons, List.mapM_cons, Arg.read?_eq_some_iff.mpr hfirst, ih]
    rfl

/-! ## Joined arguments -/

/-- A url with arguments is cut at its first question mark, and what is behind it at the
ampersands. -/
theorem split_query {stored : String} {texts : List String} (hstored : '?' ∉ stored.toList)
    (hne : texts ≠ []) (htexts : ∀ text ∈ texts, text ≠ "" ∧ '&' ∉ text.toList) :
    base (stored ++ "?" ++ String.intercalate "&" texts) = stored ∧
      params (stored ++ "?" ++ String.intercalate "&" texts) = texts.map String.toList := by
  have htext : (stored ++ "?" ++ String.intercalate "&" texts).toList =
      stored.toList ++ '?' :: ['&'].intercalate (texts.map String.toList) := by
    simp [String.toList_append]
  constructor
  · unfold base
    rw [htext, takeWhile_cut hstored, String.ofList_toList]
  · unfold params
    rw [htext, dropWhile_cut hstored, List.drop_one, List.tail_cons, List.splitOn_intercalate]
    · refine List.filter_eq_self.mpr fun chars hchars => ?_
      obtain ⟨text, hmem, rfl⟩ := List.mem_map.mp hchars
      exact decide_eq_true fun hnil => (htexts text hmem).1 (String.toList_eq_nil_iff.mp hnil)
    · intro chars hchars
      obtain ⟨text, hmem, rfl⟩ := List.mem_map.mp hchars
      exact (htexts text hmem).2
    · exact fun hnil => hne (List.map_eq_nil_iff.mp hnil)

/-- The target of a link comes apart into what it was joined from. -/
theorem split_target (url : String) {texts : List String} {args : List Arg}
    (htexts : ∀ text ∈ texts, text ≠ "" ∧ '&' ∉ text.toList)
    (hargs : List.Forall₂ Arg.Written texts args) :
    base (Listing.target url texts) = encode url ∧ args? (Listing.target url texts) = some args := by
  cases hargs with
  | nil => exact ⟨base_encode url, args?_encode url⟩
  | cons hfirst hrest =>
    obtain ⟨hbase, hparams⟩ := split_query (questionMark_not_mem_encode url)
      (List.cons_ne_nil _ _) htexts
    refine ⟨hbase, ?_⟩
    unfold args?
    show (params (encode url ++ "?" ++ _)).mapM Arg.read? = _
    rw [hparams]
    exact mapM_read? (.cons hfirst hrest)

end Url

namespace Listing

/-- A link without a name of its own is called by a number, which has no slash. -/
theorem slash_not_mem_toString (n : Nat) : '/' ∉ (toString n).toList := by
  intro h
  rw [Nat.toString_eq_repr, Nat.toList_repr] at h
  exact absurd (Nat.isDigit_of_mem_toDigits (by decide) (by decide) h) (by decide)

/-- A property that is set goes to the entry that was added last. -/
theorem addProperty_of_concat {l : Listing} {front : List Entry} {last : Entry}
    (h : l.entries = front ++ [last]) (key : String) (value : Value) :
    l.addProperty key value = (true, { l with entries := front ++ [last.set key value] }) := by
  unfold addProperty
  rw [h, List.getLast?_concat]
  dsimp only
  rw [List.dropLast_concat]

/-- The entry of a link is the one for its name, with the target beside. -/
theorem addLink_of_not_mem (l : Listing) {name : Option String}
    (hname : ∀ given, name = some given → '/' ∉ given.toList) (url : String)
    (texts : List String) :
    ∃ l', l.addLink name url texts = (true, l') ∧ l'.entries = l.entries ++
      [(fresh l.base (name.getD (toString l.nextIndex)) false).set realPathKey
        (.text (target url texts))] := by
  unfold addLink
  cases name with
  | some given =>
    dsimp only
    rw [addEntry_of_not_mem (hname given rfl)]
    exact ⟨_, addProperty_of_concat rfl _ _, rfl⟩
  | none =>
    dsimp only
    rw [addEntry_of_not_mem (slash_not_mem_toString l.nextIndex)]
    exact ⟨_, addProperty_of_concat rfl _ _, rfl⟩

/-- The target of a link comes apart into the url that it was made for and the arguments that it was
given, in order, each with what it states. -/
theorem addLink_target (l : Listing) {name : Option String} (url : String) {texts : List String}
    (hname : ∀ given, name = some given → '/' ∉ given.toList)
    (htexts : ∀ text ∈ texts, text ≠ "" ∧ '&' ∉ text.toList ∧ ∃ arg, Url.Arg.Written text arg) :
    ∃ entry real args l', l.addLink name url texts = (true, l') ∧
      l'.entries = l.entries ++ [entry] ∧ entry.get? realPathKey = some (.text real) ∧
      Url.decode? (Url.base real) = some url ∧ Url.args? real = some args ∧
      List.Forall₂ Url.Arg.Written texts args ∧ (texts = [] → '?' ∉ real.toList) := by
  obtain ⟨l', hlink, hentries⟩ := l.addLink_of_not_mem hname url texts
  obtain ⟨args, hargs⟩ := Url.exists_args fun text hmem => (htexts text hmem).2.2
  obtain ⟨hbase, hsplit⟩ := Url.split_target url
    (fun text hmem => ⟨(htexts text hmem).1, (htexts text hmem).2.1⟩) hargs
  refine ⟨_, target url texts, args, l', hlink, hentries, ?_, ?_, hsplit, hargs, ?_⟩
  · rw [Entry.get?_set, if_pos rfl]
  · rw [hbase, Url.decode?_encode]
  · rintro rfl
    exact Url.questionMark_not_mem_encode url

/-- The arguments hold a second equals sign, a question mark and an escape, and the url holds what
separates arguments. -/
theorem addLink_target_subtune :
    ∃ entry real l', addLink (.empty "dir:///music") (some "best") "file:///a b?c=d&e.sid"
        ["subtune=9", "loop", "title=A%20B=C?"] = (true, l') ∧
      l'.entries = [entry] ∧ entry.get? realPathKey = some (.text real) ∧
      Url.decode? (Url.base real) = some "file:///a b?c=d&e.sid" ∧
      Url.args? real = some [.pair "subtune" "9", .flag "loop", .pair "title" "A B=C?"] := by
  have hfirst : Url.Arg.Written "subtune=9" (.pair "subtune" "9") :=
    Url.Arg.read?_eq_some_iff.mp (by decide +kernel)
  have hflag : Url.Arg.Written "loop" (.flag "loop") :=
    Url.Arg.read?_eq_some_iff.mp (by decide +kernel)
  have hlast : Url.Arg.Written "title=A%20B=C?" (.pair "title" "A B=C?") :=
    Url.Arg.read?_eq_some_iff.mp (by decide +kernel)
  have hname : ∀ given, some "best" = some given → '/' ∉ given.toList := by
    rintro _ ⟨⟩
    decide +kernel
  have htexts : ∀ text ∈ ["subtune=9", "loop", "title=A%20B=C?"],
      text ≠ "" ∧ '&' ∉ text.toList ∧ ∃ arg, Url.Arg.Written text arg := by
    simp only [List.forall_mem_cons, List.not_mem_nil, false_imp_iff, implies_true, and_true]
    exact ⟨⟨by decide, by decide +kernel, _, hfirst⟩, ⟨by decide, by decide +kernel, _, hflag⟩,
      by decide, by decide +kernel, _, hlast⟩
  obtain ⟨entry, real, args, l', hlink, hentries, hreal, hurl, hargs, hwritten, -⟩ :=
    addLink_target (.empty "dir:///music") "file:///a b?c=d&e.sid" hname htexts
  have hread := Url.mapM_read? hwritten
  rw [Url.mapM_read? (.cons hfirst (.cons hflag (.cons hlast .nil))), Option.some.injEq] at hread
  exact ⟨entry, real, l', hlink, hentries, hreal, hurl, hread ▸ hargs⟩

end Listing

end MediaChain
