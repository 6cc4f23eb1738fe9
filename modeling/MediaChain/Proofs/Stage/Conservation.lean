import MediaChain.Proofs.Stage.Diary

/-!
# Nothing is lost and nothing is made up

The bytes of a plugin reach the reader directly or by way of what its stage has produced ahead. Bytes
are put aside only behind a mark that lies behind bytes the reader got, and then nothing lies ahead
(`Stage.fill_portions`). So, whatever the plugin does, what the reads have returned and what lies
ahead are together what it gave (`Stage.Reached.conserves`). That no read of the plugin was forgotten
is said by the plugin itself: a state that accounts for all reads (`Plugin.Accounts`) accounts for
those that were written down (`Stage.Gave`).
-/

namespace MediaChain

variable {ι ε : Type}

/-- The bytes of some portions, one after the other. -/
def bytesOf (portions : List Portion) : Bytes := portions.flatMap Portion.bytes

theorem bytesOf_nil : bytesOf [] = [] := rfl

theorem bytesOf_cons (p : Portion) (portions : List Portion) :
    bytesOf (p :: portions) = p.bytes ++ bytesOf portions := rfl

theorem bytesOf_append (portions portions' : List Portion) :
    bytesOf (portions ++ portions') = bytesOf portions ++ bytesOf portions' :=
  List.flatMap_append

/-- A reply by which nothing counts gives no bytes. -/
theorem Reply.bytes_of_count_eq_zero {r : Reply} (h : r.count = 0) (w : Window) :
    r.bytes w = [] :=
  List.length_eq_zero_iff.mp ((r.length_bytes w).trans h)

/-- The window has room, and the reply keeps to it. -/
structure Portion.Fits (p : Portion) : Prop where
  room : 0 < p.window.size
  keeps : p.reply.count ≤ p.window.size

/-- A plugin that keeps an account of its reads in its state: each that succeeds adds the window that
it was handed with its reply. -/
def Plugin.Accounts (p : Plugin ι ε) (account : ι → List Portion) : Prop :=
  ∀ state window, (p.read state window).Ends (fun _ => True) fun r =>
    ∀ reply, r.1 = .ok reply → account r.2 = account state ++ [⟨window, reply⟩]

namespace Stage

variable {tap : Tap ι ε} {window : Window} {s s' : Stage ι ε} {f f' : Front ι ε} {reply : Reply}

/-! ## Taking bytes -/

/-- Of what the plugin gives to fill a window, the reader gets the first part, and the rest lies
ahead. -/
theorem fill_portions {fresh : Bool} (hb : window.size ≠ 0 → s.buffer = [])
    (hfill : fill tap fresh window s f = (.ok reply, s', f')) :
    reply.Fills window.size (s.buffer ++ bytesOf (fillPortions tap fresh window s f))
      s'.buffer := by
  refine fill_induct (P := fun fresh window s f reply s' => (window.size ≠ 0 → s.buffer = []) →
    reply.Fills window.size (s.buffer ++ bytesOf (fillPortions tap fresh window s f)) s'.buffer)
    ?full ?ended ?more ?aside hfill hb
  case full =>
    intro fresh window s f hw _
    rw [fillPortions, if_pos hw, bytesOf_nil, List.append_nil]
    exact .zero _ _ _
  case ended =>
    intro fresh window s s₁ f f₁ r hw hpull hzero hb
    rw [fillPortions_of_pull fresh hw hpull, if_pos hzero, bytesOf_cons, bytesOf_nil,
      List.append_nil, Portion.bytes, Reply.bytes_of_count_eq_zero hzero, List.append_nil,
      ← pull_buffer hpull]
    exact .zero _ _ _
  case more =>
    intro fresh window s s₁ s' f f₁ r r' hw hpull hzero hpending ih hb
    have hbuffer : (s₁.landIf fresh).buffer = [] := (pull_buffer hpull).trans (hb hw)
    have hrest := ih fun _ => hbuffer
    rw [hbuffer, List.nil_append] at hrest
    obtain ⟨-, -, -, -, -, -, hle⟩ := pull_ok hpull
    rw [fillPortions_of_pull fresh hw hpull, if_neg hzero, if_pos hpending, bytesOf_cons, hb hw,
      List.nil_append]
    refine hrest.prepend (r.bytes window) ?_
    rw [Reply.length_bytes, Window.size_drop, Window.size_write]
    omega
  case aside =>
    intro fresh window s s₁ f f₁ r hw hpull hzero hpending hb
    rw [fillPortions_of_pull fresh hw hpull, if_neg hzero, if_neg hpending, bytesOf_cons,
      bytesOf_nil, List.append_nil, pull_buffer hpull]
    exact .zero _ _ _

/-- What a read returns and what lies ahead then are what lay ahead before and what the plugin gave
meanwhile. -/
theorem read_portions (hread : s.read tap window f = (.ok reply, s', f')) :
    reply.bytes window ++ s'.buffer = s.buffer ++ bytesOf (s.readPortions tap window f) := by
  have hreach := s.reach_le window.size
  have hlen : (s.buffer.take (s.reach window.size)).length =
      min (s.reach window.size) s.buffer.length := List.length_take
  unfold readPortions
  rcases read_cases hread with ⟨hdone, rfl, rfl, -⟩ | ⟨r, hdone, hfill, rfl⟩
  · rw [if_pos hdone, Reply.bytes_ofBytes window (by omega), bytesOf_nil, List.append_nil]
    exact List.take_append_drop _ _
  · rw [hdone, if_neg Bool.false_ne_true]
    have hsize : ((window.take (s.reach window.size)).drop
        (s.buffer.take (s.reach window.size)).length).size =
          s.reach window.size - (s.buffer.take (s.reach window.size)).length := by
      simp only [Window.size_drop, Window.size_take, Nat.min_eq_left hreach]
    -- there is room left only if all that lay ahead was served
    have hserved : s.reach window.size - (s.buffer.take (s.reach window.size)).length ≠ 0 →
        (s.served (s.reach window.size)).buffer = [] :=
      fun hroom => List.drop_of_length_le (by omega)
    have hfills := fill_portions (hsize ▸ hserved) hfill
    rw [hsize] at hfills
    have hroom : (s.buffer.take (s.reach window.size)).length +
        (s.reach window.size - (s.buffer.take (s.reach window.size)).length) ≤ window.size := by
      omega
    have hall := hfills.prepend (s.buffer.take (s.reach window.size)) hroom
    rw [Reply.bytes_eq_take hall.fits hall.written, hall.split, ← List.append_assoc]
    congr 1
    exact List.take_append_drop _ _

/-! ## Looking ahead -/

/-- What lies ahead after looking ahead is what lay ahead before and what the plugin gave meanwhile.
It is less than was asked for only at the end. -/
theorem lookAhead_portions {size : Nat} (hlook : lookAhead tap size s f = (.ok (), s', f')) :
    s'.buffer = s.buffer ++ bytesOf (s.peekPortions tap size f) ∧
      (size ≤ s'.buffer.length ∨ s'.done = true) := by
  refine lookAhead_induct (P := fun s f s' =>
    s'.buffer = s.buffer ++ bytesOf (s.peekPortions tap size f) ∧
      (size ≤ s'.buffer.length ∨ s'.done = true)) ?enough ?ended ?more hlook
  case enough =>
    intro s f henough
    rw [peekPortions, if_pos henough, bytesOf_nil, List.append_nil]
    exact ⟨rfl, henough⟩
  case ended =>
    intro s s₁ f f₁ r hmore hpull hzero
    rw [peekPortions_of_pull hmore hpull, if_pos hzero, bytesOf_cons, Portion.bytes,
      Reply.bytes_of_count_eq_zero hzero, bytesOf_nil, List.append_nil, List.append_nil]
    have hbuffer := pull_buffer hpull
    exact ⟨hbuffer, .inr rfl⟩
  case more =>
    intro s s₁ s' f f₁ r hmore hpull hzero ih
    rw [peekPortions_of_pull hmore hpull, if_neg hzero, bytesOf_cons, Portion.bytes]
    refine ⟨ih.1.trans ?_, ih.2⟩
    rw [List.append_assoc]

/-! ## What the plugin was asked for -/

/-- Between two states of a stage its plugin gave some portions, and was asked for nothing else: each
had room, and they are what the plugin itself has accounted for. -/
structure Gave (first last : Option (Engine ι ε)) (portions : List Portion) : Prop where
  fit : ∀ p ∈ portions, p.Fits
  counted : ∃ e state, first = some e ∧ last = some { e with state } ∧
    ∀ account, e.plugin.Accounts account → account state = account e.state ++ portions

theorem Gave.refl {e : Option (Engine ι ε)} (h : e ≠ none) : Gave e e [] := by
  obtain ⟨e, rfl⟩ := Option.ne_none_iff_exists'.mp h
  exact ⟨nofun, e, e.state, rfl, rfl, fun account _ => (List.append_nil _).symm⟩

theorem Gave.append {e₁ e₂ e₃ : Option (Engine ι ε)} {portions portions' : List Portion}
    (h : Gave e₁ e₂ portions) (h' : Gave e₂ e₃ portions') : Gave e₁ e₃ (portions ++ portions') := by
  obtain ⟨hfit, e, state, rfl, rfl, haccount⟩ := h
  obtain ⟨hfit', e', state', he, rfl, haccount'⟩ := h'
  obtain ⟨⟩ := he
  refine ⟨fun p hp => (List.mem_append.mp hp).elim (hfit p) (hfit' p), e, state', rfl, rfl,
    fun account hkeeps => ?_⟩
  rw [haccount' account hkeeps, haccount account hkeeps, List.append_assoc]

theorem pull_gave (hw : window.size ≠ 0) (hpull : s.pull tap window f = (.ok reply, s', f')) :
    Gave s.engine s'.engine [⟨window, reply⟩] := by
  obtain ⟨-, -, -, -, -, -, hle⟩ := pull_ok hpull
  unfold pull at hpull
  split at hpull
  · cases hpull
  next e he =>
    dsimp only at hpull
    split at hpull
    next hreply =>
      split at hpull
      next =>
        obtain ⟨⟩ := hpull
        refine ⟨fun p hp => ?_, e, _, he, rfl, fun account hkeeps => ?_⟩
        · rw [List.mem_singleton.mp hp]
          exact ⟨Nat.pos_of_ne_zero hw, hle⟩
        · exact ((hkeeps e.state window).run (answer tap s.post s.buffer.length false)
            (J := fun _ => True) (fun _ _ _ _ => trivial) trivial).1 _ hreply
      next => cases hpull
    next => cases hpull

theorem fill_gave {fresh : Bool} (hs : s.engine ≠ none)
    (hfill : fill tap fresh window s f = (.ok reply, s', f')) :
    Gave s.engine s'.engine (fillPortions tap fresh window s f) := by
  refine fill_induct (P := fun fresh window s f _ s' => s.engine ≠ none →
    Gave s.engine s'.engine (fillPortions tap fresh window s f)) ?full ?ended ?more ?aside hfill hs
  case full =>
    intro fresh window s f hw hs
    rw [fillPortions, if_pos hw]
    exact .refl hs
  case ended =>
    intro fresh window s s₁ f f₁ r hw hpull hzero _
    rw [fillPortions_of_pull fresh hw hpull, if_pos hzero]
    have hgave := pull_gave hw hpull
    exact hgave
  case more =>
    intro fresh window s s₁ s' f f₁ r r' hw hpull hzero hpending ih _
    rw [fillPortions_of_pull fresh hw hpull, if_neg hzero, if_pos hpending]
    have hgave := pull_gave hw hpull
    obtain ⟨e, state, -, hs₁, -⟩ := hgave.counted
    exact hgave.append (ih (hs₁ ▸ Option.some_ne_none _))
  case aside =>
    intro fresh window s s₁ f f₁ r hw hpull hzero hpending _
    rw [fillPortions_of_pull fresh hw hpull, if_neg hzero, if_neg hpending]
    have hgave := pull_gave hw hpull
    exact hgave

theorem read_gave (hs : s.engine ≠ none) (hread : s.read tap window f = (.ok reply, s', f')) :
    Gave s.engine s'.engine (s.readPortions tap window f) := by
  unfold readPortions
  rcases read_cases hread with ⟨hdone, -, rfl, -⟩ | ⟨r, hdone, hfill, -⟩
  · rw [if_pos hdone]
    exact .refl hs
  · rw [hdone, if_neg Bool.false_ne_true]
    exact fill_gave (s := s.served (s.reach window.size)) hs hfill

theorem lookAhead_gave {size : Nat} (hs : s.engine ≠ none)
    (hlook : lookAhead tap size s f = (.ok (), s', f')) :
    Gave s.engine s'.engine (s.peekPortions tap size f) := by
  -- the window for reading ahead has room
  have hroom : ∀ s : Stage ι ε, s.window.size ≠ 0 := fun s => Nat.ne_of_gt s.post.readChunk_pos
  refine lookAhead_induct (P := fun s f s' => s.engine ≠ none →
    Gave s.engine s'.engine (s.peekPortions tap size f)) ?enough ?ended ?more hlook hs
  case enough =>
    intro s f henough hs
    rw [peekPortions, if_pos henough]
    exact .refl hs
  case ended =>
    intro s s₁ f f₁ r hmore hpull hzero _
    rw [peekPortions_of_pull hmore hpull, if_pos hzero]
    have hgave := pull_gave (hroom s) hpull
    exact hgave
  case more =>
    intro s s₁ s' f f₁ r hmore hpull hzero ih _
    rw [peekPortions_of_pull hmore hpull, if_neg hzero]
    have hgave := pull_gave (hroom s) hpull
    obtain ⟨e, state, -, hs₁, -⟩ := hgave.counted
    exact hgave.append (ih (hs₁ ▸ Option.some_ne_none _))

/-! ## All that the plugin gave -/

variable {d : Diary ι ε}

/-- What the reads have returned and what lies ahead are what the plugin gave. -/
theorem Reached.accounts (h : Reached s d) (hok : s.errored = false) :
    d.taken ++ s.buffer = bytesOf d.portions ∧ Gave d.first s.engine d.portions := by
  refine h.induct (P := fun s d => d.taken ++ s.buffer = bytesOf d.portions ∧
    Gave d.first s.engine d.portions) ?create ?recordFact ?read ?peek ?seek hok
  case create =>
    intro p settings goals s f f' hcreate
    have hs := (sound_of_create hcreate).driven
    obtain ⟨state, bench, outType, -, rfl, -⟩ := create_ok hcreate
    exact ⟨rfl, .refl hs⟩
  case recordFact => exact fun log key value ih => ih
  case read =>
    intro tap window s s' f f' d reply hs ih hread
    refine ⟨?_, ih.2.append (read_gave hs.driven hread)⟩
    show d.taken ++ reply.bytes window ++ s'.buffer = bytesOf (d.portions ++ _)
    rw [List.append_assoc, read_portions hread, ← List.append_assoc, ih.1, bytesOf_append]
  case peek =>
    intro tap size s s' f f' d bytes hs ih hpeek
    obtain ⟨hlook, -⟩ := peek_ok hpeek
    refine ⟨?_, ih.2.append (lookAhead_gave hs.driven hlook)⟩
    show d.taken ++ s'.buffer = bytesOf (d.portions ++ _)
    rw [(lookAhead_portions hlook).1, ← List.append_assoc, ih.1, bytesOf_append]
  case seek =>
    intro tap offset whence position s s' f f' hs hseek
    have hs' := hs.seek tap offset whence f
    rw [hseek] at hs'
    refine ⟨?_, .refl hs'.driven⟩
    show [] ++ s'.buffer = bytesOf []
    rw [(seek_ok hseek).1]
    rfl

/-- **Conservation.** As long as no call of a stage has failed, what its reads have returned since it
was set up or last sought and what lies ahead are, one after the other, the bytes that its plugin
gave since, each time into a window that had room. A peek shows the first of the bytes that lie
ahead, as many as it was asked for or else all of them, and fewer than it was asked for only at the
end of the stream. -/
theorem Reached.conserves (h : Reached s d) (hok : s.errored = false) :
    d.taken ++ s.buffer = bytesOf d.portions ∧ Gave d.first s.engine d.portions ∧
      ∀ {tap : Tap ι ε} {size : Nat} {f : Front ι ε} {bytes : Bytes} {s' : Stage ι ε}
        {f' : Front ι ε}, s.peek tap size f = (.ok bytes, s', f') →
          bytes = s'.buffer.take size ∧ bytes.length = min size s'.buffer.length ∧
            (bytes.length < size → s'.done = true) := by
  obtain ⟨hbytes, hgave⟩ := h.accounts hok
  refine ⟨hbytes, hgave, fun hpeek => ?_⟩
  obtain ⟨hlook, rfl⟩ := peek_ok hpeek
  rw [List.length_take]
  refine ⟨rfl, rfl, fun hshort => ?_⟩
  exact (lookAhead_portions hlook).2.resolve_left (by omega)

/-- Of four bytes that were produced ahead a read takes two, and all that is left is less than five
bytes. -/
theorem Reached.conserves_stepping :
    ∃ (s s' : Stage Nat Unit) (d : Diary Nat Unit) (f f' : Front Nat Unit), Reached s d ∧
      s.errored = false ∧ d.taken = [0, 1] ∧ s.buffer = [2, 3] ∧
      bytesOf d.portions = [0, 1, 2, 3] ∧ s.peek .closed 5 f = (.ok [2, 3, 4, 5], s', f') ∧
      s'.done = true := by
  obtain ⟨s, f, hs⟩ :
      ∃ s f, Stage.create stepping {} [] ⟨[], ⟨.empty, .empty⟩⟩ = (.ok s, f) := ⟨_, _, rfl⟩
  have hpeek : (s.peek .closed 3 f).1 = .ok [0, 1, 2] := by
    apply ok_of_toOption
    cases hs
    decide +kernel
  have hread : ((s.peek .closed 3 f).2.1.read .closed (.blank 10) (s.peek .closed 3 f).2.2).1 =
      .ok ⟨2, [0, 1]⟩ := by
    apply ok_of_toOption
    cases hs
    decide +kernel
  have reached := ((Reached.create hs).peek (Prod.ext hpeek rfl)).read (Prod.ext hread rfl)
  have hshort : (Stage.peek .closed 5 ((s.peek .closed 3 f).2.1.read .closed (.blank 10)
      (s.peek .closed 3 f).2.2).2.1 f).1 = .ok [2, 3, 4, 5] := by
    apply ok_of_toOption
    cases hs
    decide +kernel
  have hok : ((s.peek .closed 3 f).2.1.read .closed (.blank 10)
      (s.peek .closed 3 f).2.2).2.1.errored = false := by
    cases hs
    decide +kernel
  have hbuffer : ((s.peek .closed 3 f).2.1.read .closed (.blank 10)
      (s.peek .closed 3 f).2.2).2.1.buffer = [2, 3] := by
    cases hs
    decide +kernel
  obtain ⟨hbytes, -, hpeeks⟩ := reached.conserves hok
  refine ⟨_, _, _, f, _, reached, hok, rfl, hbuffer, hbytes.symm.trans ?_, Prod.ext hshort rfl,
    (hpeeks (Prod.ext hshort rfl)).2.2 (by decide)⟩
  rw [hbuffer]
  rfl

end Stage

end MediaChain
