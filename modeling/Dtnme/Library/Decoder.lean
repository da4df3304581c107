import Dtnme.Library.Slice

/-! # Decoders that assign while they read

A decoder looks at a buffer that may grow. It assigns as it goes and ends with a value, for want
of bytes, or for good. `Reads` says that it is never surprised by what comes later: an end for
good stays, a value stays as soon as the elements it rests on are there, and what was assigned
before the bytes ran out is the beginning of what is assigned with more of them.
-/

namespace Dtnme.Library

/-- How a decoder ends. -/
inductive Ending (ε α : Type)
  | done (val : α)
  | more
  | stop (reason : ε)
  deriving DecidableEq, Repr

/-- A decoder of a buffer, with the assignments it makes in order. -/
def Decoder (β ε ω α : Type) := List β → List ω × Ending ε α

namespace Decoder

variable {β ε ω α γ : Type}

def ret (a : α) : Decoder β ε ω α := fun _ => ([], .done a)

def fail (e : ε) : Decoder β ε ω α := fun _ => ([], .stop e)

def assign (w : ω) : Decoder β ε ω Unit := fun _ => ([w], .done ())

/-- Go on with the value of a first decoder. -/
def andThen (d : Decoder β ε ω α) (f : α → Decoder β ε ω γ) : Decoder β ε ω γ := fun buf =>
  match d buf with
  | (log, .done a) => (log ++ (f a buf).1, (f a buf).2)
  | (log, .more) => (log, .more)
  | (log, .stop e) => (log, .stop e)

instance : Monad (Decoder β ε ω) where
  pure := ret
  bind := andThen

section
variable {d : Decoder β ε ω α} {f : α → Decoder β ε ω γ} {buf : List β} {log : List ω}

theorem bind_done {a : α} (h : d buf = (log, .done a)) :
    (d >>= f) buf = (log ++ (f a buf).1, (f a buf).2) := by
  change andThen d f buf = _
  rw [andThen, h]

theorem bind_more (h : d buf = (log, .more)) : (d >>= f) buf = (log, .more) := by
  change andThen d f buf = _
  rw [andThen, h]

theorem bind_stop {e : ε} (h : d buf = (log, .stop e)) : (d >>= f) buf = (log, .stop e) := by
  change andThen d f buf = _
  rw [andThen, h]

/-- A value of a sequence is one of its second part, behind a value of the first. -/
theorem bind_eq_done {c : γ} (h : (d >>= f) buf = (log, .done c)) :
    ∃ log₁ a log₂, d buf = (log₁, .done a) ∧ f a buf = (log₂, .done c) ∧ log = log₁ ++ log₂ := by
  rcases hd : d buf with ⟨log₁, a | _ | e⟩
  · rw [bind_done hd] at h
    obtain ⟨hlog, hend⟩ := Prod.mk.inj h
    exact ⟨log₁, a, (f a buf).1, rfl, Prod.ext rfl hend, hlog.symm⟩
  · rw [bind_more hd] at h
    simp at h
  · rw [bind_stop hd] at h
    simp at h

/-- What the first part assigns comes first. -/
theorem prefix_bind : (d buf).1 <+: ((d >>= f) buf).1 := by
  rcases hd : d buf with ⟨log₁, a | _ | e⟩
  · rw [bind_done hd]
    exact List.prefix_append _ _
  · rw [bind_more hd]
  · rw [bind_stop hd]

end

@[simp] theorem pure_apply (a : α) (buf : List β) :
    (pure a : Decoder β ε ω α) buf = ([], .done a) := rfl

@[simp] theorem fail_apply (e : ε) (buf : List β) :
    (fail e : Decoder β ε ω α) buf = ([], .stop e) := rfl

@[simp] theorem assign_apply (w : ω) (buf : List β) :
    (assign w : Decoder β ε ω Unit) buf = ([w], .done ()) := rfl

/-! ## Reading from mark to mark -/

section Reads
variable {M : Type} (ext : M → ℕ) (Inv : List β → M → Prop) (Fine : List β → ω → Prop)

/-- `d` reads from the mark `m` to the mark `next a` of its value `a`. Up to a mark `ext` elements
were looked at. `Inv` holds of the marks on the way and `Fine` of the assignments, if `Inv` does
at the start. -/
structure Reads (d : Decoder β ε ω α) (m : M) (next : α → M) : Prop where
  done : ∀ {buf log a}, ext m ≤ buf.length → d buf = (log, .done a) →
    ext m ≤ ext (next a) ∧ ext (next a) ≤ buf.length ∧
    (∀ buf', ext (next a) ≤ buf'.length →
      buf'.take (ext (next a)) = buf.take (ext (next a)) → d buf' = (log, .done a)) ∧
    (Inv buf m → Inv buf (next a) ∧ ∀ w ∈ log, Fine buf w)
  stop : ∀ {buf log e} later, ext m ≤ buf.length → d buf = (log, .stop e) →
    d (buf ++ later) = (log, .stop e)
  more : ∀ {buf log} later, ext m ≤ buf.length → d buf = (log, .more) →
    log <+: (d (buf ++ later)).1

variable {ext Inv Fine} {d : Decoder β ε ω α} {f : α → Decoder β ε ω γ} {m : M} {next : α → M}

/-- A value stays when more comes. -/
theorem Reads.done_append (h : Reads ext Inv Fine d m next) {buf : List β} {log : List ω} {a : α}
    (later : List β) (hm : ext m ≤ buf.length) (hd : d buf = (log, .done a)) :
    d (buf ++ later) = (log, .done a) := by
  obtain ⟨_, hle, hlocal, _⟩ := h.done hm hd
  apply hlocal
  · rw [List.length_append]
    omega
  · rw [List.take_append_of_le_length hle]

/-- A mark with the same bytes behind it that promises as much. -/
theorem Reads.of_mark {m' : M} (h : Reads ext Inv Fine d m' next) (hext : ext m = ext m')
    (hinv : ∀ buf, Inv buf m → Inv buf m') : Reads ext Inv Fine d m next where
  done := by
    intro buf log a hm hd
    obtain ⟨h₁, h₂, h₃, h₄⟩ := h.done (hext ▸ hm) hd
    exact ⟨hext.trans_le h₁, h₂, h₃, fun hi => h₄ (hinv buf hi)⟩
  stop := fun later hm hd => h.stop later (hext ▸ hm) hd
  more := fun later hm hd => h.more later (hext ▸ hm) hd

theorem Reads.ret {a : α} (ha : next a = m) : Reads ext Inv Fine (pure a : Decoder β ε ω α) m next where
  done := by
    intro buf log b hm hd
    obtain ⟨rfl, hend⟩ := Prod.mk.inj hd
    obtain rfl := Ending.done.inj hend
    rw [ha]
    exact ⟨le_rfl, hm, fun _ _ _ => rfl, fun hi => ⟨hi, by simp⟩⟩
  stop := by
    intro buf log e later _ hd
    simp at hd
  more := by
    intro buf log later _ hd
    simp at hd

theorem Reads.fail {e : ε} : Reads ext Inv Fine (fail e : Decoder β ε ω α) m next where
  done := by
    intro buf log b _ hd
    simp at hd
  stop := by
    intro buf log e' later _ hd
    exact hd
  more := by
    intro buf log later _ hd
    simp at hd

theorem Reads.assign {w : ω} (hw : ∀ buf, Inv buf m → Fine buf w) :
    Reads ext Inv Fine (assign w : Decoder β ε ω Unit) m (fun _ => m) where
  done := by
    intro buf log b hm hd
    obtain ⟨rfl, _⟩ := Prod.mk.inj hd
    exact ⟨le_rfl, hm, fun _ _ _ => rfl, fun hi => ⟨hi, by simpa using hw buf hi⟩⟩
  stop := by
    intro buf log e later _ hd
    simp at hd
  more := by
    intro buf log later _ hd
    simp at hd

/-- One reader behind another. -/
theorem Reads.bind {next' : γ → M} (hd : Reads ext Inv Fine d m next)
    (hf : ∀ a, Reads ext Inv Fine (f a) (next a) next') :
    Reads ext Inv Fine (d >>= f) m next' where
  done := by
    intro buf log c hm h
    obtain ⟨log₁, a, log₂, h₁, h₂, rfl⟩ := bind_eq_done h
    obtain ⟨hle₁, hlen₁, hlocal₁, hinv₁⟩ := hd.done hm h₁
    obtain ⟨hle₂, hlen₂, hlocal₂, hinv₂⟩ := (hf a).done hlen₁ h₂
    refine ⟨hle₁.trans hle₂, hlen₂, ?_, ?_⟩
    · intro buf' hlen heq
      have htake : buf'.take (ext (next a)) = buf.take (ext (next a)) := by
        have := congrArg (List.take (ext (next a))) heq
        rwa [List.take_take, List.take_take, min_eq_left hle₂] at this
      rw [bind_done (hlocal₁ buf' (hle₂.trans hlen) htake), hlocal₂ buf' hlen heq]
    · intro hi
      obtain ⟨hi₁, hw₁⟩ := hinv₁ hi
      obtain ⟨hi₂, hw₂⟩ := hinv₂ hi₁
      exact ⟨hi₂, fun w hw => (List.mem_append.mp hw).elim (hw₁ w) (hw₂ w)⟩
  stop := by
    intro buf log e later hm h
    rcases hd' : d buf with ⟨log₁, a | _ | e'⟩
    · rw [bind_done hd'] at h
      obtain ⟨rfl, hend⟩ := Prod.mk.inj h
      have h₂ := (hf a).stop later (hd.done hm hd').2.1 (Prod.ext rfl hend)
      rw [bind_done (hd.done_append later hm hd'), h₂]
    · rw [bind_more hd'] at h
      simp at h
    · rw [bind_stop hd'] at h
      rw [bind_stop (hd.stop later hm hd'), h]
  more := by
    intro buf log later hm h
    rcases hd' : d buf with ⟨log₁, a | _ | e'⟩
    · rw [bind_done hd'] at h
      obtain ⟨rfl, hend⟩ := Prod.mk.inj h
      have h₂ := (hf a).more later (hd.done hm hd').2.1 (Prod.ext rfl hend)
      rw [bind_done (hd.done_append later hm hd')]
      exact List.prefix_append_right_inj log₁ |>.mpr h₂
    · rw [bind_more hd'] at h
      obtain ⟨rfl, _⟩ := Prod.mk.inj h
      exact (hd.more later hm hd').trans prefix_bind
    · rw [bind_stop hd'] at h
      simp at h

end Reads

end Decoder

end Dtnme.Library
