import PrintServer.Ipp.Attribute
import PrintServer.Ipp.HttpRead

/-!
# The body of a request as a transport
-/

namespace PrintServer.Ipp

open Http

/-- A request whose body is not chunked. -/
def Conn : Type :=
  { s : IppBody × List Recv // s.1.chunked = false ∧ (0 < s.1.qsize → 0 ≤ s.1.network.ibufCnt) }

namespace Conn

variable {b b' : IppBody} {rs rs' : List Recv} {data : List UInt8} {old : Nat → UInt8} {n : Int}

/-- The bytes of the body that the client still sends. -/
def pending (s : Conn) : List UInt8 :=
  (received s.1.1.network s.1.2).take s.1.1.qsize.toNat

theorem pending_eq_nil (s : Conn) (h : s.1.1.qsize ≤ 0) : s.pending = [] := by
  unfold pending
  rw [Int.toNat_of_nonpos h, List.take_zero]

/-- What `httpRead` does with a body that is not chunked. -/
theorem httpRead_spec (hchunked : b.chunked = false) (hcnt : 0 < b.qsize → 0 ≤ b.network.ibufCnt)
    (h : httpRead old b n rs = some (data, b', rs')) :
    (b'.chunked = false ∧ (0 < b'.qsize → 0 ≤ b'.network.ibufCnt)) ∧
      (data = [] ∧ b'.qsize ≤ 0 ∧ (0 < n → 0 < b.qsize → received b.network rs = []) ∨
        ∃ m : Nat, data.length = m ∧ 0 < m ∧ m ≤ n ∧ m ≤ b.qsize ∧ b'.qsize = b.qsize - m ∧
          received b.network rs = data ++ received b'.network rs') := by
  unfold httpRead at h
  rw [if_neg (by rw [hchunked]; simp)] at h
  unfold readBody at h
  split at h
  · rename_i hq
    rw [hchunked] at h
    obtain ⟨rfl, rfl, rfl⟩ : [] = data ∧ b = b' ∧ rs = rs' := by simpa using h
    exact ⟨⟨hchunked, hcnt⟩, .inl ⟨rfl, hq, fun _ hpos ↦ absurd hq (Int.not_le.mpr hpos)⟩⟩
  rename_i hq
  have hpos : 0 < b.qsize := Int.not_le.mp hq
  split at h
  · cases h
  rename_i m bytes f rs₁ hrecv
  split at h
  · -- the connection has failed, or nothing was asked for
    rename_i hm
    obtain ⟨rfl, rfl, rfl⟩ : [] = data ∧
        ({ chunked := false, qsize := 0, timedOut := true, network := f } : IppBody) = b' ∧
          rs₁ = rs' := by simpa using h
    refine ⟨⟨rfl, fun h0 ↦ absurd h0 (Int.lt_irrefl 0)⟩, .inl ⟨rfl, Int.le_refl 0, fun hn _ ↦ ?_⟩⟩
    unfold zotRecv at hrecv
    split at hrecv
    · cases hrecv
    · exact refill_failed ‹_›
    · have hcnt' := refill_cnt (hcnt hpos) ‹_›
      rename_i g _ _
      obtain ⟨⟨rfl, -⟩, -⟩ : (min (min n b.qsize) g.ibufCnt = m ∧ _) ∧ _ := by simpa using hrecv
      omega
  · rename_i hm
    obtain ⟨hlen, hle, hreads, -⟩ := zotRecv_pos (by omega) hrecv
    rw [if_neg (by rw [hchunked]; simp)] at h
    obtain ⟨rfl, rfl, rfl⟩ : bytes = data ∧
        ({ b with qsize := b.qsize - m, network := f } : IppBody) = b' ∧ rs₁ = rs' := by
      simpa using h
    exact ⟨⟨hchunked, fun _ ↦ hreads.cnt⟩, .inr ⟨m.toNat, hlen, by omega, by omega, by omega,
      by change b.qsize - m = _; omega, hreads.bytes⟩⟩

/-- `httpRead`; a call that waits for ever reads nothing. -/
def read (old : Nat → UInt8) (n : Int) (s : Conn) : List UInt8 × Conn :=
  match h : httpRead old s.1.1 n s.1.2 with
  | none => ([], s)
  | some (data, b, rs) => (data, ⟨(b, rs), (httpRead_spec s.2.1 s.2.2 h).1⟩)

/-- What a call reads: nothing, and then the body is at its end unless nothing was asked for, or
the next bytes of the body. -/
theorem read_spec (old : Nat → UInt8) (n : Int) (s : Conn) :
    ((read old n s).1 = [] ∧ ((read old n s).2.pending = [] ∨ (read old n s).2 = s) ∧
        (0 < n → s.pending = [])) ∨
      (read old n s).1 ≠ [] ∧ ((read old n s).1.length : Int) ≤ n ∧
        s.pending = (read old n s).1 ++ (read old n s).2.pending := by
  unfold read
  split
  · -- `rs` is used up and nothing is buffered
    rename_i hnone
    refine .inl ⟨rfl, .inr rfl, fun _ ↦ ?_⟩
    have hempty : received s.1.1.network s.1.2 = [] ∨ s.1.1.qsize ≤ 0 := by
      by_cases hq : s.1.1.qsize ≤ 0
      · exact .inr hq
      · left
        unfold httpRead readBody at hnone
        rw [if_neg (by rw [s.2.1]; simp), if_neg hq] at hnone
        split at hnone
        · exact zotRecv_waits ‹_›
        · split at hnone
          · cases hnone
          · rw [if_neg (by rw [s.2.1]; simp)] at hnone
            cases hnone
    rcases hempty with h | h
    · unfold pending
      rw [h, List.take_nil]
    · exact s.pending_eq_nil h
  · rename_i data b rs h
    obtain ⟨hinv, ⟨rfl, hq, hend⟩ | ⟨m, hlen, hpos, hle, hsize, hrest, hbytes⟩⟩ :=
      httpRead_spec s.2.1 s.2.2 h
    · refine .inl ⟨rfl, .inl (pending_eq_nil _ hq), fun hn ↦ ?_⟩
      by_cases hq' : s.1.1.qsize ≤ 0
      · exact s.pending_eq_nil hq'
      · unfold pending
        rw [hend hn (Int.not_le.mp hq'), List.take_nil]
    · have hne : data ≠ [] := List.ne_nil_of_length_pos (by omega)
      refine .inr ⟨hne, by change (data.length : Int) ≤ n; omega, ?_⟩
      have hsub : b.qsize.toNat = s.1.1.qsize.toNat - data.length := by omega
      change (received s.1.1.network s.1.2).take s.1.1.qsize.toNat =
        data ++ (received b.network rs).take b.qsize.toNat
      have hall : data.length ≤ s.1.1.qsize.toNat := by omega
      rw [hbytes, List.take_append, List.take_of_length_le hall, hsub]

/-- `httpRead` on a body that is not chunked delivers the bytes of the body in order. -/
def transport (old : Nat → UInt8) : Transport Conn where
  httpRead := read old
  pending := pending
  piece n s hn := by
    rcases read_spec old n s with ⟨hnil, hrest, hend⟩ | ⟨-, -, hbytes⟩
    · rw [hnil, hend hn, List.nil_append]
      rcases hrest with hrest | hrest
      · exact hrest
      · rw [hrest, hend hn]
    · exact hbytes.symm
  piece_le n s hn := by
    rcases read_spec old n s with ⟨hnil, -, -⟩ | ⟨-, hle, -⟩
    · rw [hnil]
      exact Nat.zero_le _
    · omega
  piece_ne_nil n s hn hne := by
    rcases read_spec old n s with ⟨-, -, hend⟩ | ⟨hdata, -, -⟩
    · exact absurd (hend hn) hne
    · exact hdata
  shrinks n s := by
    rcases read_spec old n s with ⟨hnil, hrest, -⟩ | ⟨-, -, hbytes⟩
    · rw [hnil, List.length_nil, Nat.zero_add]
      rcases hrest with hrest | hrest
      · rw [hrest]
        exact Nat.zero_le _
      · rw [hrest]
    · rw [hbytes, List.length_append]

end Conn

end PrintServer.Ipp
