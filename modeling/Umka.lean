import Umka.Proof.Qcow2.Flat
import Umka.Proof.Qcow2.Contents
import Umka.Proof.Qcow2.History
import Umka.Proof.Qcow2.Header
import Umka.Proof.Qcow2.Faults
import Umka.Io.Slot
import Umka.Proof.Io.Slot
import Umka.Shell.CmdSlot
import Umka.Proof.Shell.CmdSlot
import Umka.Lib.Interleave
import Umka.Vdisk.Raw
import Umka.Proof.Raw.Store
import Umka.Proof.Interleaved
import Umka.Lib.Flow
import Umka.Lib.Text
import Umka.Tools.Covpreproc
import Umka.Proof.Tools.Listing
import Umka.Proof.Tools.Coverage
import Umka.Proof.Shell.Vars
import Umka.Shell.CmdTable
import Umka.Lib.Options
import Umka.Shell.Optparse
import Umka.Proof.Shell.Optparse
import Umka.Shell.Script
import Umka.Proof.Shell.Script
import Umka.Proof.Shell.Help
import Umka.Kos.Lfn
import Umka.Proof.Shell.Ls
import Umka.Fuse.Fs
import Umka.Proof.Fuse.Fs
import Umka.Vdisk.Init
import Umka.Proof.Vdisk.Init
import Umka.Acpi.DevicesDat
import Umka.Proof.Acpi.DevicesDat
import Umka.Proof.Tools.Runtests
import Umka.Proof.Qcow2.Compressed
import Umka.Proof.Shell.LsAgree
import Umka.Proof.Shell.LsBuffer
import Umka.Lib.Sweep
import Umka.Shell.Scrot
import Umka.Proof.Shell.Capture
import Umka.Proof.Shell.Scrot
import Umka.Kos.SysCalls
import Umka.Lib.Pack
import Umka.Proof.Kos.SysCalls
import Umka.Lib.Numeral
import Umka.Proof.Shell.Numbers
import Umka.Proof.Shell.Keyboard
import Umka.Proof.Shell.Net
import Umka.Acpi.Path
import Umka.Proof.Acpi.Path
import Umka.Acpi.Dump
import Umka.Proof.Acpi.Package
import Umka.Proof.Acpi.Dump
import Umka.Net.Vnet
import Umka.Proof.Net.Vnet
import Umka.Lib.Stdio
import Umka.Tools.Artefacts
import Umka.Proof.Tools.Artefacts
import Umka.Proof.Tools.RunTest
import Umka.Proof.Tools.Timeout
import Umka.Proof.Tools.Mkfilepattern
import Umka.Lib.RolHash
import Umka.Lib.Tuples
import Umka.Proof.Tools.SameHash
import Umka.Lib.Preorder
import Umka.Lib.Replace
import Umka.Tools.Dirtotest
import Umka.Proof.Tools.Dirtotest
import Umka.Tools.Randdir
import Umka.Proof.Tools.Randdir
import Umka.Lib.Counting
import Umka.Tools.GenSameHash
import Umka.Proof.Tools.GenSameHash
import Umka.Lib.Bits
import Umka.Lib.Canonical
import Umka.Lib.Checked
import Umka.Inflate.BitReader
import Umka.Inflate.Huffman
import Umka.Inflate.Block
import Umka.Inflate.Checksum
import Umka.Inflate.Stream
import Umka.Proof.Inflate.BitReader
import Umka.Proof.Inflate.Sort
import Umka.Proof.Inflate.Codes
import Umka.Lib.Deflate
import Umka.Proof.Inflate.Decode
import Umka.Proof.Inflate.Lengths
import Umka.Proof.Inflate.Tables
import Umka.Lib.Checksum
import Umka.Proof.Inflate.Copy
import Umka.Proof.Inflate.Checksum
import Umka.Proof.Inflate.Blocks
import Umka.Lib.Containers
import Umka.Proof.Inflate.Streams
import Umka.Proof.Inflate.Progress
import Umka.Proof.Inflate.Safety
