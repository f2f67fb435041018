import Gummy.Lib.CWord

/-!
Constants shared by the kernel modules: the page size of `pmm.h` and the
page-table flags of `vmm.h`.
-/

namespace Gummy

/-- `PAGE_SIZE`. -/
abbrev pageSize : ℕ := 4096

/-- `VMM_FLAGS_PRESENT`. -/
abbrev vmmFlagsPresent : ℕ := 1

/-- `VMM_FLAGS_RW`. -/
abbrev vmmFlagsRw : ℕ := 2

/-- `VMM_FLAGS_USER`. -/
abbrev vmmFlagsUser : ℕ := 4

end Gummy
