import LinuxDrivers.Lib.Run
import LinuxDrivers.Lib.Bytes
import LinuxDrivers.Lib.CString
import LinuxDrivers.Lib.Device
import LinuxDrivers.Lib.Ownership
import LinuxDrivers.Lib.Search
import LinuxDrivers.Sfs.Kernel
import LinuxDrivers.Sfs.Mount
import LinuxDrivers.Lib.FileHandle
import LinuxDrivers.Sfs.Ownership
import LinuxDrivers.Sfs.Isolation
import LinuxDrivers.Sfs.Format
import LinuxDrivers.Sfs.KernelSpec
import LinuxDrivers.Sfs.Remount
import LinuxDrivers.Sfs.Directory
import LinuxDrivers.Sfs.Writeback
import LinuxDrivers.Shell.Browse
import LinuxDrivers.Shell.BrowseSpec
import LinuxDrivers.Shell.Agreement
import LinuxDrivers.Shell.WriteSpec
import LinuxDrivers.Shell.Filling
import LinuxDrivers.Shell.Session
import LinuxDrivers.Shell.Contents
import LinuxDrivers.Akpfs.Layout
import LinuxDrivers.Akpfs.Driver
import LinuxDrivers.Akpfs.DriverSpec
import LinuxDrivers.Akpfs.Consistent
import LinuxDrivers.Akpfs.Mkfs
import LinuxDrivers.Akpfs.MkfsSpec
import LinuxDrivers.Akpfs.Exactness
import LinuxDrivers.Akpfs.Agreement
import LinuxDrivers.Ddk.Block
import LinuxDrivers.Ddk.ExactlyOnce
import LinuxDrivers.Ddk.Idle
import LinuxDrivers.Shell.BlockNumbers
import LinuxDrivers.Shell.Names
import LinuxDrivers.Sfs.EntryIo
import LinuxDrivers.Ddk.Complete
import LinuxDrivers.Lib.Sectors
import LinuxDrivers.Ddk.SectorArray
import LinuxDrivers.DdkMem.File
import LinuxDrivers.DdkMem.LeftOver
import LinuxDrivers.Lib.Ring
import LinuxDrivers.Rtl8101.Driver
import LinuxDrivers.Rtl8101.Transmit
import LinuxDrivers.Rtl8101.Receive
import LinuxDrivers.Sfs.Files
import LinuxDrivers.Sfs.Leak
import LinuxDrivers.Usb.DdkU2s
import LinuxDrivers.Usb.Uctl
import LinuxDrivers.Shell.Geometry
import LinuxDrivers.Uart.CharDriver
import LinuxDrivers.Uart.Order
import LinuxDrivers.Expt.Driver
import LinuxDrivers.Expt.Busy
import LinuxDrivers.Expt.Descriptors
import LinuxDrivers.Sfs.Atomic
import LinuxDrivers.Akpfs.Allocator
import LinuxDrivers.Akpfs.Lookup
import LinuxDrivers.Akpfs.ReadFailures
import LinuxDrivers.Akpfs.Truncate
import LinuxDrivers.Sfs.Truncation
import LinuxDrivers.Sfs.LongNames
import LinuxDrivers.Sfs.Listing
import LinuxDrivers.Shell.RoundTrip
import LinuxDrivers.Ddk.Bounds
import LinuxDrivers.Usb.Send
import LinuxDrivers.DdkMem.Seek
import LinuxDrivers.I2c.Complete
import LinuxDrivers.I2c.Bounds
import LinuxDrivers.Expt.Reader
import LinuxDrivers.Rtl8101.RingEnd
import LinuxDrivers.Uart.Index
import LinuxDrivers.Spi.Mcspi
import LinuxDrivers.I2c.At24
import LinuxDrivers.I2c.At24Lock
import LinuxDrivers.I2c.At24Spec
import LinuxDrivers.I2c.At24Store
import LinuxDrivers.Lib.ByteFile
import LinuxDrivers.Rtl8101.FrameOrder
import LinuxDrivers.Sfs.FileCalls
import LinuxDrivers.Sfs.FileRuns
import LinuxDrivers.Shell.Exchange
