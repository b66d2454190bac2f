import Umka.Shell.Handlers

/-!
# `shell.c`: the commands

Every `cmd_*` function with the test it makes of `argc` and the usage it prints, the table
`cmd_cmds` that names them, and `cmd_help`. The functions stand in the table's order. Some
share their text and their test with another one, which they call: `cmd_ls70` and `cmd_ls80`
those of `cmd_ls`, `cmd_read70` and `cmd_read80` those of `cmd_read`, `cmd_stat70` and
`cmd_stat80` those of `cmd_stat`.
-/

set_option autoImplicit false

namespace Umka.Shell

open Lib

/-! ## The handlers -/

def cmdSendScancode : CmdFunc where
  guard := .lt 2
  usage :=
    "usage: send_scancode <code>...\n" ++
    "  code             dec or hex number\n"

def cmdUmkaBoot : CmdFunc := { guard := .ne 1, usage := "usage: umka_boot\n" }

def cmdUmkaSetBootParams : CmdFunc where
  guard := .never
  usage :=
    "usage: umka_set_boot_params [--x_res <num>] [--y_res <num>]\n" ++
    "  --x_res <num>    screen width\n" ++
    "  --y_res <num>    screen height\n" ++
    "  --bpp <num>      screen bits per pixel\n" ++
    "  --pitch <num>    screen line length in bytes\n"
  body := .setBootParams

def cmdAcpiCall : CmdFunc where
  guard := .lt 2
  usage :=
    "usage: acpi_call <method> [args...]\n" ++
    "  method         name of acpi method to call, e.g. \\_SB_PCI0_PRT\n"
  body := .acpiCall

def cmdAcpiEnable : CmdFunc := { guard := .ne 1, usage := "usage: acpi_enable\n" }

def cmdAcpiGetUsage : CmdFunc := { guard := .ne 1, usage := "usage: acpi_get_usage\n" }

def cmdAcpiPreloadTable : CmdFunc where
  guard := .ne 2
  usage :=
    "usage: acpi_preload_table <file>\n" ++
    "  file             path/to/local/file.aml\n"

def cmdAcpiSetUsage : CmdFunc where
  guard := .ne 2
  usage :=
    "usage: acpi_set_usage <num>\n" ++
    "  num            one of ACPI_USAGE_* constants\n"

def cmdAcpiGetNodeAllocCnt : CmdFunc :=
  { guard := .ne 1, usage := "usage: acpi_get_node_alloc_cnt\n" }

def cmdAcpiGetNodeFreeCnt : CmdFunc :=
  { guard := .ne 1, usage := "usage: acpi_get_node_free_cnt\n" }

def cmdAcpiGetNodeCnt : CmdFunc := { guard := .ne 1, usage := "usage: acpi_get_node_cnt\n" }

def cmdBoardGet : CmdFunc where
  guard := .gt 2
  usage := "usage: board_get [<-l|-a>] [-n]\n"
  body := .boardGet

def cmdBoardPut : CmdFunc := { guard := .ne 2, usage := "usage: board_put <char>\n" }

def cmdBgMap : CmdFunc := { guard := .ne 1, usage := "usage: bg_map\n" }

def cmdBgPutImg : CmdFunc where
  guard := .ne 4
  usage :=
    "usage: bg_put_img <image> <offset>\n" ++
    "  image          file\n" ++
    "  offset         in bytes, (x+y*xsize)*3\n"

def cmdBgPutPixel : CmdFunc where
  guard := .ne 3
  usage :=
    "usage: bg_put_pixel <offset> <color>\n" ++
    "  offset         in bytes, (x+y*xsize)*3\n" ++
    "  color          in hex\n"

def cmdBgRedraw : CmdFunc := { guard := .ne 1, usage := "usage: bg_redraw\n" }

def cmdBgSetMode : CmdFunc where
  guard := .ne 3
  usage :=
    "usage: bg_set_mode <mode>\n" ++
    "  mode           1 = tile, 2 = stretch\n"

def cmdBgSetSize : CmdFunc where
  guard := .ne 3
  usage :=
    "usage: bg_set_size <xsize> <ysize>\n" ++
    "  xsize          in pixels\n" ++
    "  ysize          in pixels\n"

def cmdBgUnmap : CmdFunc where
  guard := .ne 2
  usage :=
    "usage: bg_unmap <addr>\n" ++
    "  addr           return value of bg_map\n"

def cmdBlitBitmap : CmdFunc where
  guard := .ne 15
  usage :=
    "usage: blit_bitmap <dstx> <dsty> <dstxsize> <dstysize> <srcx> <srcy> <srcxsize>" ++
    " <srcysize> <operation> <background> <transparent> <client_relative> <row_length>\n" ++
    "  dstx             dst rect x offset, window-relative\n" ++
    "  dsty             dst rect y offset, window-relative\n" ++
    "  dstxsize         dst rect width\n" ++
    "  dstysize         dst rect height\n" ++
    "  srcx             src rect x offset, window-relative\n" ++
    "  srcy             src rect y offset, window-relative\n" ++
    "  srcxsize         src rect width\n" ++
    "  srcysize         src rect height\n" ++
    "  operation        0 - copy\n" ++
    "  background       0/1 - blit into background surface\n" ++
    "  transparent      0/1\n" ++
    "  client_relative  0/1\n" ++
    "  row_length       in bytes\n"

def cmdButton : CmdFunc where
  guard := .ne 9
  usage :=
    "usage: button <x> <xsize> <y> <ysize> <id> <color> <draw_button> <draw_frame>\n" ++
    "  x                x\n" ++
    "  xsize            may be size-1, check it\n" ++
    "  y                y\n" ++
    "  ysize            may be size-1, check it\n" ++
    "  id               24-bit\n" ++
    "  color            hex\n" ++
    "  draw_button      0/1\n" ++
    "  draw_frame       0/1\n"

def cmdCd : CmdFunc where
  guard := .ne 2
  usage :=
    "usage: cd <path>\n" ++
    "  path             path/to/dir\n"

def cmdSet : CmdFunc where
  guard := .ne 3
  usage :=
    "usage: set <var> <value>\n" ++
    "  <var>          variable to set\n" ++
    "  <value>        decimal or hex value\n"

def cmdGet : CmdFunc where
  guard := .ne 2
  usage :=
    "usage: get <var>\n" ++
    "  <var>          variable to get\n"

def cmdGetKey : CmdFunc where
  guard := .gt 1
  usage := "usage: get_key\n"
  body := .getKey

def cmdDiskAdd : CmdFunc where
  guard := .lt 3
  usage :=
    "usage: disk_add <file> <name> [option]...\n" ++
    "  <file>           absolute or relative path\n" ++
    "  <name>           disk name, e.g. hd0 or rd\n" ++
    "  -c cache size    size of disk cache in bytes\n"

def cmdDiskDel : CmdFunc where
  guard := .ne 2
  usage :=
    "usage: disk_del <name>\n" ++
    "  name             disk name, i.e. rd or hd0\n"

def cmdDisplayNumber : CmdFunc where
  guard := .ne 15
  usage :=
    "usage: display_number <is_pointer> <base> <num_digits> <is_qword> <show_lead_zeros>" ++
    " <num_or_ptr> <x> <y> <color> <fill_bg> <font> <draw_to_buf> <scale_factor>" ++
    " <bg_color_or_buf>\n" ++
    "  is_pointer       if num_or_ptr argument is a pointer\n" ++
    "  base             0 - dec, 1 - hex, 2 - bin\n" ++
    "  num_digits       how many digits to print\n" ++
    "  is_qword         if 1, is_pointer = 1 and num_or_ptr is pointer\n" ++
    "  show_lead_zeros  0/1\n" ++
    "  num_or_ptr       number itself or a pointer to it\n" ++
    "  x                x window coord\n" ++
    "  y                y window coord\n" ++
    "  color            argb in hex\n" ++
    "  fill_bg          0/1\n" ++
    "  font             0 = 6x9, 1 = 8x16\n" ++
    "  draw_to_buf      0/1\n" ++
    "  scale_factor     0 = x1, ..., 7 = x8\n" ++
    "  bg_color_or_buf  depending on flags fill_bg and draw_to_buf\n"

def cmdDrawLine : CmdFunc where
  guard := .lt 6
  usage :=
    "usage: draw_line <xbegin> <xend> <ybegin> <yend> <color> [-i]\n" ++
    "  xbegin           x left coord\n" ++
    "  xend             x right coord\n" ++
    "  ybegin           y top coord\n" ++
    "  yend             y bottom coord\n" ++
    "  color            hex\n" ++
    "  -i               inverted color\n"

def cmdDrawRect : CmdFunc where
  guard := .lt 6
  usage :=
    "usage: draw_rect <x> <xsize> <y> <ysize> <color> [-g]\n" ++
    "  x                x coord\n" ++
    "  xsize            x size\n" ++
    "  y                y coord\n" ++
    "  ysize            y size\n" ++
    "  color            in hex\n" ++
    "  -g               0/1 - gradient\n"

def cmdDrawWindow : CmdFunc where
  guard := .ne 13
  usage :=
    "usage: draw_window <x> <xsize> <y> <ysize> <color> <has_caption> <client_relative>" ++
    " <fill_workarea> <gradient_fill> <movable> <style> <caption>\n" ++
    "  x                x coord\n" ++
    "  xsize            x size\n" ++
    "  y                y coord\n" ++
    "  ysize            y size\n" ++
    "  color            hex\n" ++
    "  has_caption      0/1\n" ++
    "  client_relative  0/1\n" ++
    "  fill_workarea    0/1\n" ++
    "  gradient_fill    0/1\n" ++
    "  movable          0/1\n" ++
    "  style            1 - draw nothing, 3 - skinned, 4 - skinned fixed\n" ++
    "  caption          asciiz\n"

def cmdDumpAppdata : CmdFunc where
  guard := .lt 2
  usage :=
    "usage: dump_appdata <index> [-p]\n" ++
    "  index            index into appdata array to dump\n" ++
    "  -p               print fields that are pointers\n"

def cmdDumpKeyBuff : CmdFunc where
  guard := .gt 2
  usage :=
    "usage: dump_key_buff [count]\n" ++
    "  count            how many items to dump (all by default)\n"
  body := .dumpKeyBuff

def cmdDumpWdata : CmdFunc where
  guard := .lt 2
  usage :=
    "usage: dump_wdata <index>\n" ++
    "  index            index into wdata array to dump\n" ++
    "  -p               print fields that are pointers\n"

def cmdDumpWinPos : CmdFunc where
  guard := .lt 1
  usage :=
    "usage: dump_win_pos [count]\n" ++
    "  count            how many items to dump\n"

def cmdDumpWinStack : CmdFunc where
  guard := .gt 2
  usage :=
    "usage: dump_win_stack [count]\n" ++
    "  count            how many items to dump\n"
  body := .dumpWinStack

def cmdDumpWinMap : CmdFunc where
  guard := .lt 0
  usage := "usage: dump_win_map\n"
  body := .dumpWinMap

def cmdExec : CmdFunc where
  guard := .zero
  usage :=
    "usage: exec <file>\n" ++
    "  file           executable to run\n"

def cmdGetFontSize : CmdFunc := { guard := .ne 1, usage := "usage: get_font_size\n" }

def cmdGetFontSmoothing : CmdFunc := { guard := .ne 1, usage := "usage: get_font_smoothing\n" }

def cmdGetKeyboardLang : CmdFunc := { guard := .ne 1, usage := "usage: get_keyboard_lang\n" }

def cmdGetKeyboardLayout : CmdFunc where
  guard := .lt 3
  usage :=
    "usage: get_keyboard_layout <-t type> [-f file]\n" ++
    "  -t type          layout type: 1 - normal, 2 - shift, 3 - alt\n" ++
    "  -f file          file name to save layout to\n"

def cmdGetKeyboardMode : CmdFunc := { guard := .ne 1, usage := "usage: get_keyboard_mode\n" }

def cmdGetMouseButtonsState : CmdFunc :=
  { guard := .ne 1, usage := "usage: get_mouse_buttons_state\n" }

def cmdGetMouseButtonsStateEvents : CmdFunc :=
  { guard := .ne 1, usage := "usage: get_mouse_buttons_state_events\n" }

def cmdGetMousePosScreen : CmdFunc :=
  { guard := .ne 1, usage := "usage: get_mouse_pos_screen\n" }

def cmdGetMousePosWindow : CmdFunc :=
  { guard := .ne 1, usage := "usage: get_mouse_pos_window\n" }

def cmdGetScreenArea : CmdFunc := { guard := .ne 1, usage := "usage: get_screen_area\n" }

def cmdGetScreenSize : CmdFunc := { guard := .ne 1, usage := "usage: get_screen_size\n" }

def cmdGetSkinHeight : CmdFunc := { guard := .ne 1, usage := "usage: get_skin_height\n" }

def cmdGetSkinMargins : CmdFunc := { guard := .ne 1, usage := "usage: get_skin_margins\n" }

def cmdGetSystemLang : CmdFunc := { guard := .ne 1, usage := "usage: get_system_lang\n" }

def cmdGetWindowColors : CmdFunc := { guard := .ne 1, usage := "usage: get_window_colors\n" }

def cmdHelp : CmdFunc where
  guard := .neither 1 2
  usage :=
    "usage: help [command]\n" ++
    "  command        help on this command usage\n"

def cmdI40 : CmdFunc where
  guard := .outside 2 8
  usage :=
    "usage: i40 <eax> [ebx [ecx [edx [esi [edi [ebp]]]]]]...\n" ++
    "  see '/kernel/docs/sysfuncs.txt' for details\n"

def cmdKosSysMiscInitHeap : CmdFunc :=
  { guard := .ne 1, usage := "usage: kos_sys_misc_init_heap\n" }

def cmdKosSysMiscLoadFile : CmdFunc where
  guard := .lt 2
  usage :=
    "usage: kos_sys_misc_load_file <filename> [-h] [-p]\n" ++
    "  file             file in kolibri fs, e.g. /sys/pew/blah\n" ++
    "  -h               dump bytes in hex\n" ++
    "  -p               print pointers\n"

def cmdLoadCursorFromFile : CmdFunc where
  guard := .ne 2
  usage :=
    "usage: load_cursor_from_file <file>\n" ++
    "  file             file in .cur format in kolibri fs\n"

def cmdLoadCursorFromMem : CmdFunc where
  guard := .ne 2
  usage :=
    "usage: load_cursor_from_mem <file>\n" ++
    "  file             file in .cur format in host fs\n"

def cmdLoadDll : CmdFunc where
  guard := .ne 2
  usage :=
    "usage: load_dll <path>\n" ++
    "  path           /path/to/library.obj in KolibriOS fs\n"

def cmdLs70 : CmdFunc where
  guard := .zero
  usage :=
    "usage: ls70 [dir] [option]...\n" ++
    "  -f number        index of the first dir entry to read\n" ++
    "  -c number        number of dir entries to read\n" ++
    "  -e encoding      cp866|utf16|utf8\n" ++
    "                   return directory listing in this encoding\n"

def cmdLs80 : CmdFunc where
  guard := .zero
  usage :=
    "usage: ls80 [dir] [option]...\n" ++
    "  -f number        index of the first dir entry to read\n" ++
    "  -c number        number of dir entries to read\n" ++
    "  -e encoding      cp866|utf16|utf8\n" ++
    "                   return directory listing in this encoding\n" ++
    "  -p encoding      cp866|utf16|utf8\n" ++
    "                   path to dir is specified in this encoding\n"

def cmdMoveWindow : CmdFunc where
  guard := .ne 5
  usage :=
    "usage: move_window <x> <y> <xsize> <ysize>\n" ++
    "  x                new x coord\n" ++
    "  y                new y coord\n" ++
    "  xsize            x size -1\n" ++
    "  ysize            y size -1\n"

def cmdMouseMove : CmdFunc where
  guard := .zero
  usage :=
    "usage: mouse_move [-l] [-m] [-r] [-x \x7b+|-|=\x7d<value>] [-y \x7b+|-|=\x7d<value>]" ++
    " [-h \x7b+|-\x7d<value>] [-v \x7b+|-\x7d<value>]\n" ++
    "  -l             left button is held\n" ++
    "  -m             middle button is held\n" ++
    "  -r             right button is held\n" ++
    "  -x             increase, decrease or set x coordinate\n" ++
    "  -y             increase, decrease or set y coordinate\n" ++
    "  -h             scroll horizontally\n" ++
    "  -v             scroll vertically\n"

def cmdStackInit : CmdFunc := { guard := .ne 1, usage := "usage: stack_init\n" }

def cmdNetAccept : CmdFunc where
  guard := .ne 4
  usage :=
    "usage: net_accept <fd> <port> <ip>\n" ++
    "  fd             socket number\n" ++
    "  port           port\n" ++
    "  addr           addr\n"

def cmdNetAddDevice : CmdFunc where
  guard := .gt 2
  usage :=
    "usage: net_add_device <devtype>\n" ++
    "  devtype          null, file or tap\n"
  body := .netAddDevice

def cmdNetArpAddEntry : CmdFunc where
  guard := .ne 6
  usage :=
    "usage: net_arp_add_entry <dev_num> <addr> <mac> <status> <ttl>\n" ++
    "  dev_num        device number as returned by net_add_device\n" ++
    "  addr           IP addr\n" ++
    "  mac            ethernet addr\n" ++
    "  status         see ARP.inc\n" ++
    "  ttl            Time to live\n"

def cmdNetArpDelEntry : CmdFunc where
  guard := .ne 3
  usage :=
    "usage: net_arp_del_entry <dev_num> <arp_num>\n" ++
    "  dev_num        device number as returned by net_add_device\n" ++
    "  arp_num        arp number as returned by net_add_device\n"

def cmdNetArpGetCount : CmdFunc where
  guard := .ne 2
  usage :=
    "usage: net_arp_get_count <dev_num>\n" ++
    "  dev_num        device number as returned by net_add_device\n"

def cmdNetArpGetEntry : CmdFunc where
  guard := .ne 3
  usage :=
    "usage: net_arp_get_entry <dev_num> <arp_num>\n" ++
    "  dev_num        device number as returned by net_add_device\n" ++
    "  arp_num        arp number as returned by net_add_device\n"

def cmdNetBind : CmdFunc where
  guard := .ne 4
  usage :=
    "usage: net_bind <fd> <port> <ip>\n" ++
    "  fd             socket number\n" ++
    "  port           port\n" ++
    "  addr           addr\n"

def cmdNetCloseSocket : CmdFunc where
  guard := .ne 2
  usage :=
    "usage: net_close_socket <socknum>\n" ++
    "  socknum        socket number\n"

def cmdNetConnect : CmdFunc where
  guard := .ne 4
  usage :=
    "usage: net_connect <fd> <port> <ip>\n" ++
    "  fd             socket number\n" ++
    "  port           port\n" ++
    "  addr           addr\n"

def cmdNetDevReset : CmdFunc where
  guard := .ne 2
  usage :=
    "usage: net_dev_reset <dev_num>\n" ++
    "  dev_num        device number as returned by net_add_device\n"

def cmdNetDevStop : CmdFunc where
  guard := .ne 2
  usage :=
    "usage: net_dev_stop <dev_num>\n" ++
    "  dev_num        device number as returned by net_add_device\n"

def cmdNetEthReadMac : CmdFunc where
  guard := .ne 2
  usage :=
    "usage: net_eth_read_mac <dev_num>\n" ++
    "  dev_num        device number as returned by net_add_device\n"

def cmdNetGetByteRxCount : CmdFunc where
  guard := .ne 2
  usage :=
    "usage: net_get_byte_rx_count <dev_num>\n" ++
    "  dev_num        device number as returned by net_add_device\n"

def cmdNetGetByteTxCount : CmdFunc where
  guard := .ne 2
  usage :=
    "usage: net_get_byte_tx_count <dev_num>\n" ++
    "  dev_num        device number as returned by net_add_device\n"

def cmdNetGetDev : CmdFunc where
  guard := .ne 2
  usage :=
    "usage: net_get_dev <dev_num>\n" ++
    "  dev_num        device number as returned by net_add_device\n"

def cmdNetGetDevCount : CmdFunc := { guard := .ne 1, usage := "usage: net_get_dev_count\n" }

def cmdNetGetDevName : CmdFunc where
  guard := .ne 2
  usage :=
    "usage: net_get_dev_name <dev_num>\n" ++
    "  dev_num        device number as returned by net_add_device\n"

def cmdNetGetDevType : CmdFunc where
  guard := .ne 2
  usage :=
    "usage: net_get_dev_type <dev_num>\n" ++
    "  dev_num        device number as returned by net_add_device\n"

def cmdNetGetLinkStatus : CmdFunc where
  guard := .ne 2
  usage :=
    "usage: net_get_link_status <dev_num>\n" ++
    "  dev_num        device number as returned by net_add_device\n"

def cmdNetGetPacketRxCount : CmdFunc where
  guard := .ne 2
  usage :=
    "usage: net_get_packet_rx_count <dev_num>\n" ++
    "  dev_num        device number as returned by net_add_device\n"

def cmdNetGetPacketTxCount : CmdFunc where
  guard := .ne 2
  usage :=
    "usage: net_get_packet_tx_count <dev_num>\n" ++
    "  dev_num        device number as returned by net_add_device\n"

def cmdNetIpv4GetAddr : CmdFunc where
  guard := .ne 2
  usage :=
    "usage: net_ipv4_get_addr <dev_num>\n" ++
    "  dev_num        device number as returned by net_add_device\n"

def cmdNetIpv4GetDns : CmdFunc where
  guard := .ne 2
  usage :=
    "usage: net_ipv4_get_dns <dev_num>\n" ++
    "  dev_num        device number as returned by net_add_device\n"

def cmdNetIpv4GetGw : CmdFunc where
  guard := .ne 2
  usage :=
    "usage: net_ipv4_get_gw <dev_num>\n" ++
    "  dev_num        device number as returned by net_add_device\n"

def cmdNetIpv4GetSubnet : CmdFunc where
  guard := .ne 2
  usage :=
    "usage: net_ipv4_get_subnet <dev_num>\n" ++
    "  dev_num        device number as returned by net_add_device\n"

def cmdNetIpv4SetAddr : CmdFunc where
  guard := .ne 3
  usage :=
    "usage: net_ipv4_set_addr <dev_num> <addr>\n" ++
    "  dev_num        device number as returned by net_add_device\n" ++
    "  addr           a.b.c.d\n"

def cmdNetIpv4SetDns : CmdFunc where
  guard := .ne 3
  usage :=
    "usage: net_ipv4_set_dns <dev_num> <dns>\n" ++
    "  dev_num        device number as returned by net_add_device\n" ++
    "  dns            a.b.c.d\n"

def cmdNetIpv4SetGw : CmdFunc where
  guard := .ne 3
  usage :=
    "usage: net_ipv4_set_gw <dev_num> <gw>\n" ++
    "  dev_num        device number as returned by net_add_device\n" ++
    "  gw             a.b.c.d\n"

def cmdNetIpv4SetSubnet : CmdFunc where
  guard := .ne 3
  usage :=
    "usage: net_ipv4_set_subnet <dev_num> <subnet>\n" ++
    "  dev_num        device number as returned by net_add_device\n" ++
    "  subnet         a.b.c.d\n"

def cmdNetListen : CmdFunc where
  guard := .ne 3
  usage :=
    "usage: net_listen <fd> <backlog>\n" ++
    "  fd             socket number\n" ++
    "  backlog        max queue length\n"

def cmdNetOpenSocket : CmdFunc where
  guard := .ne 4
  usage :=
    "usage: net_open_socket <domain> <type> <protocol>\n" ++
    "  domain         domain\n" ++
    "  type           type\n" ++
    "  protocol       protocol\n"

def cmdOsloop : CmdFunc := { guard := .ne 1, usage := "usage: osloop\n" }

def cmdPciGetPath : CmdFunc := { guard := .ne 1, usage := "usage: pci_get_path\n" }

def cmdPciSetPath : CmdFunc where
  guard := .ne 2
  usage :=
    "usage: pci_set_path <path>\n" ++
    "  path           where aaaa:bb:cc.d dirs are\n"

def cmdProcessInfo : CmdFunc where
  guard := .ne 2
  usage :=
    "usage: process_info <pid>\n" ++
    "  pid              process id to dump, -1 for self\n"

def cmdPutImage : CmdFunc where
  guard := .ne 6
  usage :=
    "usage: put_image <file> <xsize> <ysize> <x> <y>\n" ++
    "  file             file with rgb triplets\n" ++
    "  xsize            x size\n" ++
    "  ysize            y size\n" ++
    "  x                x coord\n" ++
    "  y                y coord\n"

def cmdPutImagePalette : CmdFunc where
  guard := .ne 8
  usage :=
    "usage: put_image_palette <file> <xsize> <ysize> <x> <y> <bpp> <row_offset>\n" ++
    "  file             path/to/file, contents according tp bpp argument\n" ++
    "  xsize            x size\n" ++
    "  ysize            y size\n" ++
    "  x                x coord\n" ++
    "  y                y coord\n" ++
    "  bpp              bits per pixel\n" ++
    "  row_offset       in bytes\n"

def cmdPwd : CmdFunc := { guard := .ne 1, usage := "usage: pwd\n" }

def cmdRamdiskInit : CmdFunc where
  guard := .ne 2
  usage :=
    "usage: ramdisk_init <file>\n" ++
    "  <file>           absolute or relative path\n"

def cmdRead70 : CmdFunc where
  guard := .lt 3
  usage :=
    "usage: read70 <file> <offset> <length> [-b] [-h]\n" ++
    "  file             path/to/file\n" ++
    "  offset           in bytes\n" ++
    "  length           in bytes\n" ++
    "  -b               dump bytes in hex\n" ++
    "  -h               print hash of data read\n"

def cmdRead80 : CmdFunc where
  guard := .lt 3
  usage :=
    "usage: read80 <file> <offset> <length> [-b] [-h] [-e cp866|utf8|utf16]\n" ++
    "  file             path/to/file\n" ++
    "  offset           in bytes\n" ++
    "  length           in bytes\n" ++
    "  -b               dump bytes in hex\n" ++
    "  -h               print hash of data read\n" ++
    "  -e               encoding\n"

def cmdScrot : CmdFunc where
  guard := .ne 2
  usage :=
    "usage: scrot <file>\n" ++
    "  file             path/to/file in png format\n"

def cmdWriteDevicesDat : CmdFunc where
  guard := .ne 2
  usage :=
    "usage: write_devices_dat <file>\n" ++
    "  file             path/to/devices.dat\n"

def cmdSetButtonStyle : CmdFunc where
  guard := .ne 2
  usage :=
    "usage: set_button_style <style>\n" ++
    "  style            0 - flat, 1 - 3d\n"

def cmdSetCursor : CmdFunc where
  guard := .ne 2
  usage :=
    "usage: set_cursor <handle>\n" ++
    "  handle           as returned by load_cursor* functions\n"

def cmdSetFontSize : CmdFunc where
  guard := .ne 2
  usage :=
    "usage: set_font_size <size>\n" ++
    "  size             in pixels\n"

def cmdSetFontSmoothing : CmdFunc where
  guard := .ne 2
  usage :=
    "usage: set_font_smoothing <mode>\n" ++
    "  mode             0 - off, 1 - gray AA, 2 - subpixel AA\n"

def cmdSetKeyboardLang : CmdFunc where
  guard := .ne 2
  usage :=
    "usage: set_keyboard_lang <lang_id>\n" ++
    "  lang_id          number or a two-digit code:\n" ++
    "                   1 - en, 2 - fi, 3 - ge, 4 - ru, 5 - fr, 6 - et,\n" ++
    "                   7 - ua, 8 - it, 9 - be, 10 - sp, 11 - ca\n"

def cmdSetKeyboardLayout : CmdFunc where
  guard := .neither 5 131
  usage :=
    "usage: set_keyboard_layout <-t type> <-f file|code\x7b128\x7d>\n" ++
    "  -t type          layout type: 1 - normal, 2 - shift, 3 - alt\n" ++
    "  -f file          file name to read layout from\n" ++
    "  code             i-th ASCII code for the scancode i\n"

def cmdSetKeyboardMode : CmdFunc where
  guard := .ne 2
  usage :=
    "usage: set_keyboard_mode <mode>\n" ++
    "  mode             0 - ASCII, 1 - scancodes\n"

def cmdSetMousePosScreen : CmdFunc where
  guard := .ne 3
  usage :=
    "usage: set_mouse_pos_screen <x> <y>\n" ++
    "  x                in pixels\n" ++
    "  y                in pixels\n"

def cmdSetPixel : CmdFunc where
  guard := .lt 4
  usage :=
    "usage: set_pixel <x> <y> <color> [-i]\n" ++
    "  x                x window coordinate\n" ++
    "  y                y window coordinate\n" ++
    "  color            argb in hex\n" ++
    "  -i               inverted color\n"

def cmdSetScreenArea : CmdFunc where
  guard := .ne 5
  usage :=
    "usage: set_screen_area <left> <top> <right> <bottom>\n" ++
    "  left             left x coord\n" ++
    "  top              top y coord\n" ++
    "  right            right x coord (not length!)\n" ++
    "  bottom           bottom y coord\n"

def cmdSetSkin : CmdFunc where
  guard := .ne 2
  usage :=
    "usage: set_skin <path>\n" ++
    "  path             i.e. /rd/1/DEFAULT.SKN\n"

def cmdSetSystemLang : CmdFunc where
  guard := .ne 2
  usage :=
    "usage: set_system_lang <lang_id>\n" ++
    "  lang_id          number or a two-digit code:\n" ++
    "                   1 - en, 2 - fi, 3 - ge, 4 - ru, 5 - fr, 6 - et,\n" ++
    "                   7 - ua, 8 - it, 9 - be, 10 - sp, 11 - ca\n"

def cmdSetWindowCaption : CmdFunc where
  guard := .ne 3
  usage :=
    "usage: set_window_caption <caption> <encoding>\n" ++
    "  caption          asciiz string\n" ++
    "  encoding         1 = cp866, 2 = UTF-16LE, 3 = UTF-8\n"

def cmdSetWindowColors : CmdFunc where
  guard := .ne 11
  usage :=
    "usage: set_window_colors <frame> <grab> <work_3d_dark> <work_3d_light> <grab_text>" ++
    " <work> <work_button> <work_button_text> <work_text> <work_graph>\n" ++
    "  *                all colors are in hex\n"

def cmdCsleep : CmdFunc := { guard := .ne 2, usage := "usage: csleep\n" }

def cmdStat70 : CmdFunc where
  guard := .lt 2
  usage :=
    "usage: stat <file> [-c] [-m] [-a]\n" ++
    "  file             path/to/file\n" ++
    "  [-c]             force show creation time\n" ++
    "  [-m]             force show modification time\n" ++
    "  [-a]             force show access time\n"

def cmdStat80 : CmdFunc where
  guard := .lt 2
  usage :=
    "usage: stat <file> [-c] [-m] [-a]\n" ++
    "  file             path/to/file\n" ++
    "  [-c]             force show creation time\n" ++
    "  [-m]             force show modification time\n" ++
    "  [-a]             force show access time\n"

def cmdVar : CmdFunc where
  guard := .ne 2
  usage :=
    "usage: var <$name>\n" ++
    "  $name            variable name, must start with $ sign\n"

def cmdCheckForEvent : CmdFunc := { guard := .ne 1, usage := "usage: check_for_event\n" }

def cmdWaitForIdle : CmdFunc := { guard := .ne 1, usage := "usage: wait_for_idle\n" }

def cmdWaitForOsIdle : CmdFunc := { guard := .ne 1, usage := "usage: wait_for_os_idle\n" }

def cmdWaitForWindow : CmdFunc :=
  { guard := .ne 2, usage := "usage: wait_for_window <window_title>\n" }

def cmdWindowRedraw : CmdFunc where
  guard := .ne 2
  usage :=
    "usage: window_redraw <1|2>\n" ++
    "  1                begin\n" ++
    "  2                end\n"

def cmdWriteText : CmdFunc where
  guard := .ne 12
  usage :=
    "usage: write_text <x> <y> <color> <string> <asciiz> <fill_bg> <font_and_enc>" ++
    " <draw_to_buf> <scale_factor> <length> <bg_color_or_buf>\n" ++
    "  x                x window coordinate\n" ++
    "  y                y window coordinate\n" ++
    "  color            argb in hex\n" ++
    "  string           escape spaces\n" ++
    "  asciiz           1 if the string is zero-terminated\n" ++
    "  fill_bg          fill text background with specified color\n" ++
    "  font_and_enc     font size and string encoding\n" ++
    "  draw_to_buf      draw to the buffer pointed to by the next param\n" ++
    "  length           length of the string if it is non-asciiz\n" ++
    "  bg_color_or_buf  argb or pointer\n"

def cmdSwitchToThread : CmdFunc where
  guard := .ne 2
  usage :=
    "usage: switch_to_thread <tid>\n" ++
    "  <tid>          thread id to switch to\n"

def cmdNewSysThread : CmdFunc := { guard := .zero, usage := "usage: new_sys_thread\n" }

/-! ## The table -/

/-- `cmd_cmds`. -/
def cmdCmds : List FuncTable :=
  [ ⟨"send_scancode", cmdSendScancode⟩,
    ⟨"umka_boot", cmdUmkaBoot⟩,
    ⟨"umka_set_boot_params", cmdUmkaSetBootParams⟩,
    ⟨"acpi_call", cmdAcpiCall⟩,
    ⟨"acpi_enable", cmdAcpiEnable⟩,
    ⟨"acpi_get_usage", cmdAcpiGetUsage⟩,
    ⟨"acpi_preload_table", cmdAcpiPreloadTable⟩,
    ⟨"acpi_set_usage", cmdAcpiSetUsage⟩,
    ⟨"acpi_get_node_alloc_cnt", cmdAcpiGetNodeAllocCnt⟩,
    ⟨"acpi_get_node_free_cnt", cmdAcpiGetNodeFreeCnt⟩,
    ⟨"acpi_get_node_cnt", cmdAcpiGetNodeCnt⟩,
    ⟨"board_get", cmdBoardGet⟩,
    ⟨"board_put", cmdBoardPut⟩,
    ⟨"bg_map", cmdBgMap⟩,
    ⟨"bg_put_img", cmdBgPutImg⟩,
    ⟨"bg_put_pixel", cmdBgPutPixel⟩,
    ⟨"bg_redraw", cmdBgRedraw⟩,
    ⟨"bg_set_mode", cmdBgSetMode⟩,
    ⟨"bg_set_size", cmdBgSetSize⟩,
    ⟨"bg_unmap", cmdBgUnmap⟩,
    ⟨"blit_bitmap", cmdBlitBitmap⟩,
    ⟨"button", cmdButton⟩,
    ⟨"cd", cmdCd⟩,
    ⟨"set", cmdSet⟩,
    ⟨"get", cmdGet⟩,
    ⟨"get_key", cmdGetKey⟩,
    ⟨"disk_add", cmdDiskAdd⟩,
    ⟨"disk_del", cmdDiskDel⟩,
    ⟨"display_number", cmdDisplayNumber⟩,
    ⟨"draw_line", cmdDrawLine⟩,
    ⟨"draw_rect", cmdDrawRect⟩,
    ⟨"draw_window", cmdDrawWindow⟩,
    ⟨"dump_appdata", cmdDumpAppdata⟩,
    ⟨"dump_key_buff", cmdDumpKeyBuff⟩,
    ⟨"dump_wdata", cmdDumpWdata⟩,
    ⟨"dump_win_pos", cmdDumpWinPos⟩,
    ⟨"dump_win_stack", cmdDumpWinStack⟩,
    ⟨"dump_win_map", cmdDumpWinMap⟩,
    ⟨"exec", cmdExec⟩,
    ⟨"get_font_size", cmdGetFontSize⟩,
    ⟨"get_font_smoothing", cmdGetFontSmoothing⟩,
    ⟨"get_keyboard_lang", cmdGetKeyboardLang⟩,
    ⟨"get_keyboard_layout", cmdGetKeyboardLayout⟩,
    ⟨"get_keyboard_mode", cmdGetKeyboardMode⟩,
    ⟨"get_mouse_buttons_state", cmdGetMouseButtonsState⟩,
    ⟨"get_mouse_buttons_state_events", cmdGetMouseButtonsStateEvents⟩,
    ⟨"get_mouse_pos_screen", cmdGetMousePosScreen⟩,
    ⟨"get_mouse_pos_window", cmdGetMousePosWindow⟩,
    ⟨"get_screen_area", cmdGetScreenArea⟩,
    ⟨"get_screen_size", cmdGetScreenSize⟩,
    ⟨"get_skin_height", cmdGetSkinHeight⟩,
    ⟨"get_skin_margins", cmdGetSkinMargins⟩,
    ⟨"get_system_lang", cmdGetSystemLang⟩,
    ⟨"get_window_colors", cmdGetWindowColors⟩,
    ⟨"help", cmdHelp⟩,
    ⟨"i40", cmdI40⟩,
    ⟨"kos_sys_misc_init_heap", cmdKosSysMiscInitHeap⟩,
    ⟨"kos_sys_misc_load_file", cmdKosSysMiscLoadFile⟩,
    ⟨"load_cursor_from_file", cmdLoadCursorFromFile⟩,
    ⟨"load_cursor_from_mem", cmdLoadCursorFromMem⟩,
    ⟨"load_dll", cmdLoadDll⟩,
    ⟨"ls70", cmdLs70⟩,
    ⟨"ls80", cmdLs80⟩,
    ⟨"move_window", cmdMoveWindow⟩,
    ⟨"mouse_move", cmdMouseMove⟩,
    ⟨"stack_init", cmdStackInit⟩,
    ⟨"net_accept", cmdNetAccept⟩,
    ⟨"net_add_device", cmdNetAddDevice⟩,
    ⟨"net_arp_add_entry", cmdNetArpAddEntry⟩,
    ⟨"net_arp_del_entry", cmdNetArpDelEntry⟩,
    ⟨"net_arp_get_count", cmdNetArpGetCount⟩,
    ⟨"net_arp_get_entry", cmdNetArpGetEntry⟩,
    ⟨"net_bind", cmdNetBind⟩,
    ⟨"net_close_socket", cmdNetCloseSocket⟩,
    ⟨"net_connect", cmdNetConnect⟩,
    ⟨"net_dev_reset", cmdNetDevReset⟩,
    ⟨"net_dev_stop", cmdNetDevStop⟩,
    ⟨"net_eth_read_mac", cmdNetEthReadMac⟩,
    ⟨"net_get_byte_rx_count", cmdNetGetByteRxCount⟩,
    ⟨"net_get_byte_tx_count", cmdNetGetByteTxCount⟩,
    ⟨"net_get_dev", cmdNetGetDev⟩,
    ⟨"net_get_dev_count", cmdNetGetDevCount⟩,
    ⟨"net_get_dev_name", cmdNetGetDevName⟩,
    ⟨"net_get_dev_type", cmdNetGetDevType⟩,
    ⟨"net_get_link_status", cmdNetGetLinkStatus⟩,
    ⟨"net_get_packet_rx_count", cmdNetGetPacketRxCount⟩,
    ⟨"net_get_packet_tx_count", cmdNetGetPacketTxCount⟩,
    ⟨"net_ipv4_get_addr", cmdNetIpv4GetAddr⟩,
    ⟨"net_ipv4_get_dns", cmdNetIpv4GetDns⟩,
    ⟨"net_ipv4_get_gw", cmdNetIpv4GetGw⟩,
    ⟨"net_ipv4_get_subnet", cmdNetIpv4GetSubnet⟩,
    ⟨"net_ipv4_set_addr", cmdNetIpv4SetAddr⟩,
    ⟨"net_ipv4_set_dns", cmdNetIpv4SetDns⟩,
    ⟨"net_ipv4_set_gw", cmdNetIpv4SetGw⟩,
    ⟨"net_ipv4_set_subnet", cmdNetIpv4SetSubnet⟩,
    ⟨"net_listen", cmdNetListen⟩,
    ⟨"net_open_socket", cmdNetOpenSocket⟩,
    ⟨"osloop", cmdOsloop⟩,
    ⟨"pci_get_path", cmdPciGetPath⟩,
    ⟨"pci_set_path", cmdPciSetPath⟩,
    ⟨"process_info", cmdProcessInfo⟩,
    ⟨"put_image", cmdPutImage⟩,
    ⟨"put_image_palette", cmdPutImagePalette⟩,
    ⟨"pwd", cmdPwd⟩,
    ⟨"ramdisk_init", cmdRamdiskInit⟩,
    ⟨"read70", cmdRead70⟩,
    ⟨"read80", cmdRead80⟩,
    ⟨"scrot", cmdScrot⟩,
    ⟨"write_devices_dat", cmdWriteDevicesDat⟩,
    ⟨"set_button_style", cmdSetButtonStyle⟩,
    ⟨"set_cursor", cmdSetCursor⟩,
    ⟨"set_cwd", cmdCd⟩,
    ⟨"set_font_size", cmdSetFontSize⟩,
    ⟨"set_font_smoothing", cmdSetFontSmoothing⟩,
    ⟨"set_keyboard_lang", cmdSetKeyboardLang⟩,
    ⟨"set_keyboard_layout", cmdSetKeyboardLayout⟩,
    ⟨"set_keyboard_mode", cmdSetKeyboardMode⟩,
    ⟨"set_mouse_pos_screen", cmdSetMousePosScreen⟩,
    ⟨"set_pixel", cmdSetPixel⟩,
    ⟨"set_screen_area", cmdSetScreenArea⟩,
    ⟨"set_skin", cmdSetSkin⟩,
    ⟨"set_system_lang", cmdSetSystemLang⟩,
    ⟨"set_window_caption", cmdSetWindowCaption⟩,
    ⟨"set_window_colors", cmdSetWindowColors⟩,
    ⟨"csleep", cmdCsleep⟩,
    ⟨"stat70", cmdStat70⟩,
    ⟨"stat80", cmdStat80⟩,
    ⟨"var", cmdVar⟩,
    ⟨"check_for_event", cmdCheckForEvent⟩,
    ⟨"wait_for_idle", cmdWaitForIdle⟩,
    ⟨"wait_for_os_idle", cmdWaitForOsIdle⟩,
    ⟨"wait_for_window", cmdWaitForWindow⟩,
    ⟨"window_redraw", cmdWindowRedraw⟩,
    ⟨"write_text", cmdWriteText⟩,
    ⟨"switch_to_thread", cmdSwitchToThread⟩,
    ⟨"new_sys_thread", cmdNewSysThread⟩ ]

/-- The entry that the loops over `cmd_cmds` stop at. -/
def cmdLookup (name : List Char) : Option FuncTable := cmdCmds.find? fun ft => ft.name.toList = name

/-- `cmd_help`. -/
def cmdHelpRun {σ κ : Type} (rest : Rest σ κ) (argc : Int) (argv : Argv) : ShellM σ κ Unit := do
  if argc = 1 then
    fputs cmdHelp.usage
    fputs "\navailable commands:\n\n"
    for ft in cmdCmds do
      fputs ("  " ++ ft.name ++ "\n")
  else if argc = 2 then
    let cmdName ← deref (← argAt argv 1)
    match cmdLookup cmdName with
    | some ft => ft.func.call rest 0 none
    | none => fputs ("no such command: " ++ String.ofList cmdName ++ "\n")
  else
    fputs cmdHelp.usage

end Umka.Shell
