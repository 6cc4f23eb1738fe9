import MediaChain.Host
import MediaChain.Proofs.Chain.Entry
import MediaChain.Proofs.Chain.Layout
import MediaChain.Proofs.Chain.Lifetimes
import MediaChain.Proofs.Chain.Rebuild
import MediaChain.Proofs.Listing.Order

/-!
# Browsing

Whatever a plugin does to a listing, browsing gives what was listed in order (`Host.Lists.browse`)
and leaves all but the journal as it was (`Host.browse_undisturbed`). So the answer depends on the
entries and not on the order in which they are listed, as long as these have paths of their own and
no numbers, and it is the stable order of the numbers if all of them have numbers
(`Host.browse_listed`).
-/

namespace MediaChain

open Listing

variable {ι ε ι' ε' : Type}

/-! ## What is left as it was -/

/-- Nothing of what a host keeps has changed but the journal and the number of attempts to set up a
stage: the plugins, the settings, the configuration, the library, the ledgers and the chains are
those that were there. -/
def Host.Undisturbed (h h' : Host ι ε) : Prop :=
  ∃ journal births, h' = h.setBackstage ⟨h.config, journal, births⟩

/-- The stage of the url that is browsed, with a log of its own. -/
def Builder.lobby (b : Builder ι ε) (text : String) (backstage : Backstage ε) : Front ι ε :=
  ⟨[.ofUrl b.settings [] text], ⟨.empty, backstage⟩⟩

theorem Stage.browse_steps (depth : Nat) (url : String) (s : Stage ι ε) (f : Front ι ε) :
    f.scene.Steps (s.browse (.reaching depth) url f).2.2.scene := by
  have hcovers := Scene.steps_covers (ε := ε) fun _ => True
  have hkeeps := Stage.browse_keepsBy hcovers (Tap.keepsBy_reaching (ι := ι) hcovers depth) url
  exact (hkeeps s f (fun _ _ => trivial) fun _ _ _ _ => trivial).2.scene

theorem Builder.browse_config (b : Builder ι ε) (url : String) (backstage : Backstage ε) :
    (b.browse url backstage).2.config = backstage.config := by
  unfold browse
  split
  · rfl
  next text _ =>
    have hnext := (b.next_steps [] (b.lobby text backstage)).config
    unfold lobby at hnext
    split
    next f heq =>
      rw [heq] at hnext
      exact (Stage.releaseAll_config _ _).trans hnext
    next stage f heq =>
      rw [heq] at hnext
      have hbrowse := (Stage.browse_steps f.stages.length text stage f).config.trans hnext
      dsimp only
      split <;> exact (Stage.releaseAll_config _ _).trans hbrowse

theorem Host.browse_undisturbed (h : Host ι ε) (url : String) : h.Undisturbed (h.browse url).2 := by
  have hconfig := h.builder.browse_config url h.world.backstage
  refine ⟨(h.builder.browse url h.world.backstage).2.journal,
    (h.builder.browse url h.world.backstage).2.births, ?_⟩
  unfold browse config
  rw [← hconfig]

/-! ## What is listed -/

/-- Browsing a url comes to a plugin that browses, is set up for the text of the url, does some
things to the listing in its callback, and ends well. -/
structure Host.Lists (h : Host ι ε) (url : String) (plugin : Plugin ι ε) (text : String)
    (edits : List Edit) : Prop where
  decode : Url.decode? url = some text
  room : 1 < h.builder.settings.stageLimit
  best : h.registry.best? (.ofUrl text) = some plugin
  browses : plugin.capabilities.browse = true
  called : ∃ stage f engine,
    Stage.create plugin h.builder.settings [] (h.builder.lobby text h.world.backstage) =
        (.ok stage, f) ∧
      stage.engine = some engine ∧
      (stage.play (.reaching f.stages.length) (f.record (.browse stage.name engine.id text))
        (plugin.browse engine.state text (.empty text))).1.1 = .ok (edited text edits)

theorem Host.Lists.browse {h : Host ι ε} {url text : String} {plugin : Plugin ι ε}
    {edits : List Edit} (hlists : h.Lists url plugin text edits) :
    (h.browse url).1 = .ok (edited text edits).sorted := by
  obtain ⟨stage, f, engine, hcreate, hengine, hreply⟩ := hlists.called
  have hnext : h.builder.next [] (h.builder.lobby text h.world.backstage) = (.ok stage, f) := by
    unfold Builder.next
    have hroom : ¬h.builder.settings.stageLimit ≤
        (h.builder.lobby text h.world.backstage).stages.length := Nat.not_le.mpr hlists.room
    rw [if_neg hroom]
    have hbest : h.builder.registry.best?
        (Chain.tailType (h.builder.lobby text h.world.backstage).stages) = some plugin :=
      hlists.best
    dsimp only
    rw [hbest]
    dsimp only
    rw [hcreate]
    rfl
  have hplugin : engine.plugin = plugin := by
    obtain ⟨state, bench, outType, -, rfl, -⟩ := Stage.create_ok hcreate
    obtain rfl := Option.some.inj hengine
    rfl
  have hbrowse : (stage.browse (.reaching f.stages.length) text f).1 =
      .ok (some (edited text edits)) := by
    unfold Stage.browse
    rw [hengine]
    dsimp only
    rw [hplugin, if_pos hlists.browses, hreply]
  unfold Builder.lobby at hnext
  unfold Host.browse Builder.browse
  rw [hlists.decode]
  dsimp only
  rw [hnext]
  dsimp only
  rw [hbrowse]

/-- Browsing answers with the entries that were listed. Without numbers, and with a path for each of
them, they are in the order of their paths in whatever order they were listed; with numbers for all
of them they are in the order of the numbers, and else as they were listed. The host is not
disturbed. -/
theorem Host.browse_listed {h : Host ι ε} {h' : Host ι' ε'} {url url' text text' : String}
    {plugin : Plugin ι ε} {plugin' : Plugin ι' ε'} {edits edits' : List Edit}
    (hlists : h.Lists url plugin text edits) (hlists' : h'.Lists url' plugin' text' edits') :
    let entries := (edited text edits).entries
    (entries.Perm (edited text' edits').entries → Pathed entries →
        (entries.map Entry.path?).Nodup → Unnumbered entries →
          ∃ listed, (h.browse url).1 = .ok listed ∧ (h'.browse url').1 = .ok listed ∧
            listed.Perm entries ∧ listed.Pairwise Entry.Before) ∧
      (Numbered entries →
        ∃ listed, (h.browse url).1 = .ok listed ∧ StableSort Entry.NumberLE entries listed) ∧
      h.Undisturbed (h.browse url).2 ∧ h'.Undisturbed (h'.browse url').2 := by
  refine ⟨fun hperm hpath hnodup hnone => ?_, fun hnumbered => ?_, h.browse_undisturbed url,
    h'.browse_undisturbed url'⟩
  · have hpath' : Pathed (edited text' edits').entries := fun e he =>
      hpath e (hperm.mem_iff.mpr he)
    have hnone' : Unnumbered (edited text' edits').entries := fun e he =>
      hnone e (hperm.mem_iff.mpr he)
    have hnodup' := (hperm.map Entry.path?).nodup_iff.mp hnodup
    obtain ⟨hsorted, hbefore⟩ := hnone.sorted hpath hnodup
    obtain ⟨hsorted', hbefore'⟩ := hnone'.sorted hpath' hnodup'
    have hsame := eq_of_before (hsorted.trans (hperm.trans hsorted'.symm)) hbefore hbefore'
    refine ⟨(edited text edits).sorted, hlists.browse, ?_, hsorted, hbefore⟩
    rw [hlists'.browse, hsame]
  · exact ⟨(edited text edits).sorted, hlists.browse, hnumbered.sorted⟩

/-! ## Two plugins that list the same files -/

/-- A plugin that opens everything, and does some things to every listing. -/
def lister (edits : List Edit) : Plugin Unit Unit where
  descriptor := { name := "dir", capabilities := { browse := true } }
  claim _ := some 1
  init := do
    let _ ← Script.request (.setOutType (.ofMime "application/x-dir"))
    return .ok ()
  read _ _ := return (.ok (.ofBytes []), ())
  browse _ _ l := return (.ok (edits.foldl (fun l edit => (edit.apply l).2) l), ())

/-- A host with such a plugin only. -/
def shelf (edits : List Edit) : Host Unit Unit :=
  (Host.empty { maxStages := 2 } false).setRegistry ⟨[lister edits]⟩

theorem shelf_lists {url text : String} (edits : List Edit) (h : Url.decode? url = some text) :
    (shelf edits).Lists url (lister edits) text edits :=
  ⟨h, Nat.lt_of_sub_ne_zero nofun, rfl, rfl, _, _, _, rfl, rfl, rfl⟩

/-- The files of a directory, and a name that is refused. -/
def shuffled : List Edit :=
  [.entry "track 10.ogg" false, .entry "Track 2.ogg" false, .entry "../secret" false,
    .entry "track 2.ogg" false, .property "size" (.int 9), .entry "track 02.ogg" false]

/-- The same files in another order. -/
def reshuffled : List Edit :=
  [.entry "track 02.ogg" false, .entry "track 2.ogg" false, .property "size" (.int 9),
    .entry "track 10.ogg" false, .entry "Track 2.ogg" false]

/-- Three subtunes with numbers, two of which are the same. -/
def numbered : List Edit :=
  [.link none "file:///a.sid" ["subtune=9"], .property sortKey (.int 2),
    .link (some "last") "file:///a.sid" [], .property sortKey (.int 1),
    .link (some "first") "file:///a.sid" [], .property sortKey (.int 2)]

theorem browse_listed_shuffled :
    (∃ listed, ((shelf shuffled).browse "dir:///music").1 = .ok listed ∧
        ((shelf reshuffled).browse "dir:///music").1 = .ok listed ∧
          listed.length = 4 ∧ listed.Pairwise Entry.Before) ∧
      ∃ listed, ((shelf numbered).browse "dir:///music").1 = .ok listed ∧
        StableSort Entry.NumberLE (edited "dir:///music" numbered).entries listed := by
  have hdecode : Url.decode? "dir:///music" = some "dir:///music" := by decide +kernel
  obtain ⟨hsame, -⟩ := Host.browse_listed (shelf_lists shuffled hdecode)
    (shelf_lists reshuffled hdecode)
  obtain ⟨-, hnumbers, -⟩ := Host.browse_listed (shelf_lists numbered hdecode)
    (shelf_lists numbered hdecode)
  refine ⟨?_, hnumbers ?_⟩
  · have hpath : Pathed (edited "dir:///music" shuffled).entries :=
      pathed_edited (by simp [shuffled, Edit.Textual, pathKey])
    obtain ⟨listed, hfirst, hsecond, hperm, hbefore⟩ := hsame (by decide +kernel) hpath
      (by decide +kernel) (by decide +kernel)
    exact ⟨listed, hfirst, hsecond, hperm.length_eq, hbefore⟩
  · decide +kernel

end MediaChain
